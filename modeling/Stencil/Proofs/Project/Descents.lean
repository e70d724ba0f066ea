import Mathlib.Data.Set.Card
import Mathlib.Data.Set.Finite.Lattice
import Stencil.Project.Scan
import Stencil.Proofs.Disk.Canonical

/-!
# Descents of a search

A search descends from a directory into those inside that it does not pass over, links to
directories included.  It goes no deeper once it comes to a directory that it is in already, which it
notices by the canonical path.  So the canonical paths of the directories that it is in at one time are
all different.  That bounds how deep calls of the search stand inside of each other, whatever number of
levels it may descend.
-/

namespace Stencil.Project.Layout

section Definitions

variable (layout : Layout) (disk : Disk)

/-- A search of a directory enters the one at which names stand inside, at most a number of levels
below. -/
inductive Enters : (levels : Nat) → (directory : Place) → (inside : List Name) → Prop where
  | here {levels : Nat} {directory : Place} : Enters levels directory []
  | inside {levels : Nat} {directory : Place} {location : Disk.Location} {name : Name}
      {inside : List Name} :
      disk.find directory.toPath = .ok location → name ∈ disk.names location →
      layout.passesOver disk (directory.child name) name = false →
      disk.isDirectory (directory.child name).toPath = true →
      Enters levels (directory.child name) inside →
      Enters (levels + 1) directory (name :: inside)

/-- A search of a directory comes to a page in one of the directories that it enters. -/
def Shows (levels : Nat) (directory page : Place) : Prop :=
  ∃ inside name location, Enters layout disk levels directory inside ∧
    disk.find (directory.below inside).toPath = .ok location ∧ name ∈ disk.names location ∧
      page = (directory.below inside).child name ∧ layout.passesOver disk page name = false ∧
        disk.isDirectory page.toPath = false ∧ layout.namesPage page.toPath = true

/-- The directory that names lead to is one of those on the way there. -/
def Returns (directory : Place) (inside : List Name) : Prop :=
  ∃ count < inside.length,
    disk.find (directory.below (inside.take count)).toPath =
      disk.find (directory.below inside).toPath

/-- The directories that a search enters, by where they really are. -/
def entered (levels : Nat) (directory : Place) : Set Disk.Location :=
  {location | ∃ inside, Enters layout disk levels directory inside ∧
    disk.find (directory.below inside).toPath = .ok location}

/-- The canonical paths of the directories that a search enters. -/
def tracked (levels : Nat) (directory : Place) : Set Path :=
  {path | ∃ inside, Enters layout disk levels directory inside ∧
    disk.canonical (directory.below inside).toPath = path}

/-- The directory that names lead to has the canonical path of one of those on the way there, or of
those above. -/
def Noticed (above : List Path) (directory : Place) (inside : List Name) : Prop :=
  disk.canonical (directory.below inside).toPath ∈ above ∨
    ∃ count < inside.length, disk.canonical (directory.below (inside.take count)).toPath =
      disk.canonical (directory.below inside).toPath

/-- What a search tells: a directory that it would enter a second time, or else all pages that it
comes to. -/
inductive Told (levels : Nat) (above : List Path) (directory : Place) :
    Except Error (List Place) → Prop where
  | cycle {inside : List Name} : Enters layout disk levels directory inside →
      Noticed disk above directory inside →
      Told levels above directory (.error (.linkCycle (directory.below inside)))
  | pages {pages : List Place} :
      (∀ inside, Enters layout disk levels directory inside →
        ¬Noticed disk above directory inside) →
      (∀ page, page ∈ pages ↔ Shows layout disk levels directory page) →
      Told levels above directory (.ok pages)

/-- A search of a directory comes to a page at one of the entries, or by way of it. -/
def ShowsAt (levels : Nat) (directory : Place) (name : Name) (page : Place) : Prop :=
  layout.passesOver disk (directory.child name) name = false ∧
    if disk.isDirectory (directory.child name).toPath then
      ∃ fewer, levels = fewer + 1 ∧ Shows layout disk fewer (directory.child name) page
    else layout.namesPage (directory.child name).toPath ∧ page = directory.child name

/-- What a search of a directory tells of one of the entries. -/
inductive ToldAt (levels : Nat) (above : List Path) (directory : Place) (name : Name) :
    Except Error (List Place) → Prop where
  | cycle {inside : List Name} : Enters layout disk levels directory (name :: inside) →
      Noticed disk above directory (name :: inside) →
      ToldAt levels above directory name (.error (.linkCycle (directory.below (name :: inside))))
  | pages {pages : List Place} :
      (∀ inside, Enters layout disk levels directory (name :: inside) →
        ¬Noticed disk above directory (name :: inside)) →
      (∀ page, page ∈ pages ↔ ShowsAt layout disk levels directory name page) →
      ToldAt levels above directory name (.ok pages)

/-- What the search of a directory inside tells, when the search may descend into it. -/
def ToldInside (levels : Nat) (above : List Path) (entry : Place)
    (outcome : Except Error (List Place)) : Prop :=
  (∃ fewer, levels = fewer + 1 ∧ Told layout disk fewer above entry outcome) ∨
    levels = 0 ∧ outcome = .ok []

end Definitions

variable {layout : Layout} {disk : Disk} {levels : Nat} {directory page : Place}
  {location : Disk.Location} {above : List Path} {name : Name} {inside : List Name}

namespace Enters

/-- What a search enters is a directory, when it starts at one. -/
theorem isDirectory (enters : layout.Enters disk levels directory inside)
    (found : disk.isDirectory directory.toPath = true) :
    disk.isDirectory (directory.below inside).toPath = true := by
  induction enters with
  | here => rwa [Place.below_nil]
  | inside _ _ _ there _ ih =>
      rw [Place.below_cons]
      exact ih there

theorem length_le (enters : layout.Enters disk levels directory inside) :
    inside.length ≤ levels := by
  induction enters with
  | here => exact Nat.zero_le _
  | inside _ _ _ _ _ ih => exact Nat.succ_le_succ ih

/-- A search enters the directories on the way to one that it enters. -/
theorem take (enters : layout.Enters disk levels directory inside) (count : Nat) :
    layout.Enters disk levels directory (inside.take count) := by
  induction enters generalizing count with
  | here =>
      rw [List.take_nil]
      exact .here
  | inside located member clear there _ ih =>
      cases count with
      | zero => exact .here
      | succ count => exact .inside located member clear there (ih count)

end Enters

/-- A search that notices a directory has returned to it. -/
theorem Enters.returns_of_noticed (enters : layout.Enters disk levels directory inside)
    (found : disk.isDirectory directory.toPath = true) (noticed : Noticed disk [] directory inside) :
    Returns disk directory inside := by
  obtain ⟨count, fewer, same⟩ := noticed.resolve_left List.not_mem_nil
  exact ⟨count, fewer, Disk.find_eq_of_canonical_eq ((enters.take count).isDirectory found)
    (enters.isDirectory found) same⟩

/-- A search that has returned to a directory notices it, when the canonical paths of the directories on
the way can be worked out. -/
theorem noticed_of_returns
    (canonicalizes : ∀ count, disk.Canonicalizes (directory.below (inside.take count)).toPath)
    (returns : Returns disk directory inside) : Noticed disk [] directory inside := by
  obtain ⟨count, fewer, same⟩ := returns
  have last := canonicalizes inside.length
  rw [List.take_length] at last
  exact .inr ⟨count, fewer, Disk.canonical_eq_of_find_eq (canonicalizes count) last same⟩

/-- There are finitely many ways into directories to be entered. -/
theorem finite_enters (layout : Layout) (disk : Disk) (levels : Nat) (directory : Place) :
    {inside | layout.Enters disk levels directory inside}.Finite := by
  induction levels generalizing directory with
  | zero =>
      refine (Set.finite_singleton []).subset ?_
      rintro _ ⟨⟩
      rfl
  | succ levels ih =>
      cases located : disk.find directory.toPath with
      | error fault =>
          refine (Set.finite_singleton []).subset ?_
          rintro _ (_ | ⟨there, _, _, _, _⟩)
          · rfl
          · cases located.symm.trans there
      | ok location =>
          have deeper := Set.Finite.biUnion (disk.names location).finite_toSet fun name _ =>
            (ih (directory.child name)).image (name :: ·)
          refine ((Set.finite_singleton []).union deeper).subset ?_
          rintro _ (_ | @⟨_, _, _, name, inside, there, member, _, _, enters⟩)
          · exact .inl rfl
          · obtain rfl := Except.ok.inj (located.symm.trans there)
            exact .inr (Set.mem_biUnion member ⟨inside, enters, rfl⟩)

/-- There are finitely many directories to be entered. -/
theorem finite_tracked (layout : Layout) (disk : Disk) (levels : Nat) (directory : Place) :
    (layout.tracked disk levels directory).Finite :=
  (finite_enters layout disk levels directory).image
    fun inside => disk.canonical (directory.below inside).toPath

/-- Directories on the way that are all come to for the first time are no more than are entered. -/
theorem Enters.length_le_ncard (enters : layout.Enters disk levels directory inside)
    (first : ∀ count < inside.length, ¬Noticed disk [] directory (inside.take count)) :
    inside.length ≤ (layout.tracked disk levels directory).ncard := by
  let seen (count : Nat) : Path := disk.canonical (directory.below (inside.take count)).toPath
  have distinct : Set.InjOn seen (Finset.range inside.length) := by
    have apart : ∀ {i j}, i < j → j < inside.length → seen i ≠ seen j := by
      intro i j before fewer same
      refine first j fewer (.inr ⟨i, ?_, ?_⟩)
      · rw [List.length_take]
        omega
      · rwa [List.take_take, Nat.min_eq_left (Nat.le_of_lt before)]
    intro i below j also same
    rw [Finset.mem_coe, Finset.mem_range] at below also
    rcases Nat.lt_trichotomy i j with before | rfl | behind
    · exact absurd same (apart before also)
    · rfl
    · exact absurd same.symm (apart behind below)
  calc inside.length = ((Finset.range inside.length).image seen).card := by
        rw [Finset.card_image_of_injOn distinct, Finset.card_range]
    _ = ((Finset.range inside.length).image seen : Set Path).ncard :=
        (Set.ncard_coe_finset _).symm
    _ ≤ (layout.tracked disk levels directory).ncard := by
        refine Set.ncard_le_ncard ?_ (finite_tracked layout disk levels directory)
        intro path member
        obtain ⟨count, -, rfl⟩ := Finset.mem_image.mp (Finset.mem_coe.mp member)
        exact ⟨inside.take count, enters.take count, rfl⟩

/-- Where all canonical paths can be worked out, there is one for each directory. -/
theorem ncard_tracked (canonicalizes : ∀ inside, layout.Enters disk levels directory inside →
      disk.Canonicalizes (directory.below inside).toPath) :
    (layout.tracked disk levels directory).ncard =
      (layout.entered disk levels directory).ncard := by
  have image : layout.tracked disk levels directory =
      Disk.Location.toPath '' layout.entered disk levels directory := by
    ext path
    constructor
    · rintro ⟨inside, enters, rfl⟩
      obtain ⟨location, worked⟩ := canonicalizes inside enters
      exact ⟨location, ⟨inside, enters, (Disk.find_of_near worked).1⟩, by
        rw [Disk.canonical, worked]⟩
    · rintro ⟨location, ⟨inside, enters, found⟩, rfl⟩
      obtain ⟨other, worked⟩ := canonicalizes inside enters
      obtain rfl := Except.ok.inj (found.symm.trans (Disk.find_of_near worked).1)
      exact ⟨inside, enters, by rw [Disk.canonical, worked]⟩
  rw [image]
  exact Set.ncard_image_of_injective _ fun _ _ => Disk.Location.toPath_inj

theorem noticed_nil :
    Noticed disk above directory [] ↔ disk.canonical directory.toPath ∈ above := by
  simp [Noticed]

/-- A directory below an entry is noticed from there when the search is in the directory already. -/
theorem noticed_cons :
    Noticed disk above directory (name :: inside) ↔
      Noticed disk (disk.canonical directory.toPath :: above) (directory.child name) inside := by
  simp only [Noticed, Place.below_cons]
  rw [List.mem_cons]
  constructor
  · rintro (member | ⟨_ | count, fewer, back⟩)
    · exact .inl (.inr member)
    · rw [List.take_zero, Place.below_nil] at back
      exact .inl (.inl back.symm)
    · rw [List.take_succ_cons, Place.below_cons] at back
      exact .inr ⟨count, by simpa using fewer, back⟩
  · rintro ((same | member) | ⟨count, fewer, back⟩)
    · exact .inr ⟨0, by simp, by simpa using same.symm⟩
    · exact .inl member
    · exact .inr ⟨count + 1, by simpa using fewer, by
        rwa [List.take_succ_cons, Place.below_cons]⟩

/-- No directory is returned to when all on the way lie where the names lead. -/
theorem not_returns {start : Disk.Location}
    (straight : ∀ count, disk.find (directory.below (inside.take count)).toPath =
      .ok (start ++ inside.take count)) : ¬Returns disk directory inside := by
  have last := straight inside.length
  rw [List.take_length] at last
  rintro ⟨count, fewer, again⟩
  rw [last, straight count] at again
  have same := congrArg List.length (Except.ok.inj again)
  simp only [List.length_append, List.length_take] at same
  omega

/-- A search comes to a page in its directory, or by way of one of the directories inside. -/
theorem shows_iff (located : disk.find directory.toPath = .ok location) :
    layout.Shows disk levels directory page ↔
      ∃ name ∈ disk.names location, layout.ShowsAt disk levels directory name page := by
  constructor
  · rintro ⟨inside, name, other, enters, there, member, rfl, passed, file, named⟩
    cases enters with
    | here =>
        rw [Place.below_nil] at there passed file named ⊢
        obtain rfl := Except.ok.inj (located.symm.trans there)
        exact ⟨name, member, passed, by simp [file, named]⟩
    | @inside fewer _ outer first rest here listed clear inner enters =>
        obtain rfl := Except.ok.inj (located.symm.trans here)
        rw [Place.below_cons] at there passed file named ⊢
        exact ⟨first, listed, clear, by
          rw [if_pos inner]
          exact ⟨fewer, rfl, rest, name, other, enters, there, member, rfl, passed, file, named⟩⟩
  · rintro ⟨first, listed, clear, found⟩
    split at found
    next inner =>
      obtain ⟨fewer, rfl, rest, name, other, enters, there, member, rfl, passed, file, named⟩ := found
      exact ⟨first :: rest, name, other, .inside located listed clear inner enters,
        by rwa [Place.below_cons], member, by rw [Place.below_cons], passed, file, named⟩
    next outer =>
      obtain ⟨named, rfl⟩ := found
      exact ⟨[], first, location, .here, by rwa [Place.below_nil], listed, by rw [Place.below_nil],
        clear, Bool.eq_false_iff.mpr outer, named⟩

/-- A loop fails with the first step that fails, or gathers what the steps give. -/
theorem mapM_cases {α β : Type} (items : List α) (step : α → Except Error (List β)) :
    (∃ item ∈ items, ∃ error, step item = .error error ∧ items.mapM step = .error error) ∨
      ∃ all, items.mapM step = .ok all ∧ (∀ item ∈ items, ∃ found, step item = .ok found) ∧
        ∀ b, b ∈ all.flatten ↔ ∃ item ∈ items, ∃ found, step item = .ok found ∧ b ∈ found := by
  induction items with
  | nil => exact .inr ⟨[], rfl, nofun, by simp⟩
  | cons item rest ih =>
      cases here : step item with
      | error error =>
          refine .inl ⟨item, List.mem_cons_self, error, here, ?_⟩
          rw [List.mapM_cons, here]
          rfl
      | ok found =>
          rcases ih with ⟨other, member, error, failed, ran⟩ | ⟨all, ran, succeeds, gathers⟩
          · refine .inl ⟨other, List.mem_cons_of_mem _ member, error, failed, ?_⟩
            rw [List.mapM_cons, here, ran]
            rfl
          · refine .inr ⟨found :: all, ?_, ?_, fun b => ?_⟩
            · rw [List.mapM_cons, here, ran]
              rfl
            · exact List.forall_mem_cons.mpr ⟨⟨found, here⟩, succeeds⟩
            · simp [here, gathers]

section Search

/-- A search of a directory tells of its entries, when the search of the directories inside does. -/
theorem toldAt_pagesAt (located : disk.find directory.toPath = .ok location)
    (member : name ∈ disk.names location) {enter : Place → Except Error (List Place)}
    (inner : disk.isDirectory (directory.child name).toPath = true →
      layout.ToldInside disk levels (disk.canonical directory.toPath :: above)
        (directory.child name) (enter (directory.child name))) :
    layout.ToldAt disk levels above directory name (layout.pagesAt disk enter directory name) := by
  rw [pagesAt]
  by_cases passed : layout.passesOver disk (directory.child name) name = true
  · rw [if_pos passed]
    refine .pages (fun inside enters => ?_) fun page => by simp [ShowsAt, passed]
    cases enters with
    | inside _ _ clear => simp [passed] at clear
  rw [if_neg passed]
  have clear := Bool.eq_false_iff.mpr passed
  by_cases there : disk.isDirectory (directory.child name).toPath = true
  · rw [if_pos there]
    rcases inner there with ⟨fewer, rfl, told⟩ | ⟨rfl, none⟩
    · generalize enter (directory.child name) = outcome at told
      cases told with
      | @cycle inside enters back =>
          rw [← Place.below_cons]
          exact .cycle (.inside located member clear there enters) (noticed_cons.mpr back)
      | pages fresh told =>
          refine .pages (fun inside enters back => ?_) fun page => by
            simp [ShowsAt, clear, there, told]
          cases enters with
          | inside _ _ _ _ deeper => exact fresh inside deeper (noticed_cons.mp back)
    · rw [none]
      exact .pages nofun fun page => by simp [ShowsAt, there]
  · rw [if_neg there]
    refine .pages (fun inside enters => ?_) fun page => ?_
    · cases enters with
      | inside _ _ _ inner => exact absurd inner there
    · by_cases named : layout.namesPage (directory.child name).toPath = true <;>
        simp [ShowsAt, clear, there, named]

variable {listing : Disk.Location → List Name}
  (lists : ∀ location, (listing location).Perm (disk.names location))

include lists

/-- A search of a directory tells of it, when the search of the directories inside does. -/
theorem told_pagesIn (found : disk.isDirectory directory.toPath = true)
    {enter : List Path → Place → Except Error (List Place)}
    (inner : ∀ name, disk.isDirectory (directory.child name).toPath = true →
      layout.ToldInside disk levels (disk.canonical directory.toPath :: above)
        (directory.child name)
        (enter (disk.canonical directory.toPath :: above) (directory.child name))) :
    layout.Told disk levels above directory
      (layout.pagesIn disk listing enter above directory) := by
  obtain ⟨location, located, held⟩ := Disk.exists_find_of_isDirectory found
  rw [pagesIn, located]
  dsimp only
  by_cases back : disk.canonical directory.toPath ∈ above
  · have again : Noticed disk above directory [] := noticed_nil.mpr back
    have told := Told.cycle (.here : layout.Enters disk levels directory []) again
    rw [Place.below_nil] at told
    rw [if_pos back]
    exact told
  rw [if_neg back, if_neg (not_not_intro held)]
  have entries := fun name (member : name ∈ listing location) =>
    toldAt_pagesAt located ((lists location).mem_iff.mp member) (inner name)
  rcases mapM_cases (listing location)
      (layout.pagesAt disk (enter (disk.canonical directory.toPath :: above)) directory) with
    ⟨name, member, error, failed, ran⟩ | ⟨all, ran, succeeds, gathers⟩
  · have told := entries name member
    rw [failed] at told
    rw [ran]
    cases told with
    | cycle enters back => exact .cycle enters back
  · have told : ∀ name ∈ listing location, ∃ pages,
        layout.pagesAt disk (enter (disk.canonical directory.toPath :: above)) directory name =
            .ok pages ∧
          (∀ inside, layout.Enters disk levels directory (name :: inside) →
            ¬Noticed disk above directory (name :: inside)) ∧
              ∀ page, page ∈ pages ↔ layout.ShowsAt disk levels directory name page := by
      intro name member
      obtain ⟨pages, succeeded⟩ := succeeds name member
      have entry := entries name member
      rw [succeeded] at entry
      cases entry with
      | pages fresh shown => exact ⟨pages, succeeded, fresh, shown⟩
    rw [ran]
    refine .pages (fun inside enters => ?_) fun page => ?_
    · cases enters with
      | here => exact fun again => back (noticed_nil.mp again)
      | @inside _ _ _ name inside there member clear descends enters =>
          obtain rfl := Except.ok.inj (located.symm.trans there)
          obtain ⟨-, -, fresh, -⟩ := told name ((lists location).mem_iff.mpr member)
          exact fresh inside (.inside located member clear descends enters)
    · rw [gathers, shows_iff located]
      constructor
      · rintro ⟨name, member, pages, succeeded, listed⟩
        obtain ⟨same, ran, -, shown⟩ := told name member
        obtain rfl := Except.ok.inj (succeeded.symm.trans ran)
        exact ⟨name, (lists location).mem_iff.mp member, (shown page).mp listed⟩
      · rintro ⟨name, member, listed⟩
        have member := (lists location).mem_iff.mpr member
        obtain ⟨pages, succeeded, -, shown⟩ := told name member
        exact ⟨name, member, pages, succeeded, (shown page).mpr listed⟩

/-- A search tells of its directory. -/
theorem told_search (found : disk.isDirectory directory.toPath = true) :
    layout.Told disk levels above directory
      (layout.search disk listing levels above directory) := by
  induction levels generalizing above directory with
  | zero => exact told_pagesIn lists found fun _ _ => .inr ⟨rfl, rfl⟩
  | succ levels ih => exact told_pagesIn lists found fun _ inner => .inl ⟨levels, rfl, ih inner⟩

end Search

end Stencil.Project.Layout
