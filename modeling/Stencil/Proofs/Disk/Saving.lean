import Stencil.Disk.Change
import Stencil.Proofs.Disk.Walks

/-!
# Saving files

A file is saved at a place by making the directories above it and writing it.  Whether that works
or not, the rest of the disk stays as it was, apart from new directories.
-/

namespace Stencil

namespace Disk

/-- Make the directories above a place. -/
def makeAbove (disk : Disk) (place : Place) : Except Fault Unit × Disk :=
  match place.toPath.parent? with
  | none => (.ok (), disk)
  | some parent => disk.makeDirectories parent

/-- Write a file at a place, and make the directories on the way. -/
def save (disk : Disk) (place : Place) (content : ByteArray) : Except Fault Unit × Disk :=
  match disk.makeAbove place with
  | (.error fault, disk) => (.error fault, disk)
  | (.ok _, disk) =>
      match disk.write place.toPath content with
      | .error fault => (.error fault, disk)
      | .ok disk => (.ok (), disk)

/-- A directory that is new is no file, as nothing was one before. -/
theorem file?_of_made {before after : Disk} {location : Location}
    (made : after.get? location = before.get? location ∨
      before.get? location = none ∧ after.get? location = some .directory) :
    after.file? location = before.file? location := by
  unfold Disk.file?
  rcases made with same | ⟨vacant, made⟩
  · rw [same]
  · rw [vacant, made]

/-- Some locations of a disk have stayed as they were, apart from new directories, and no link is
new. -/
structure Keeps (kept : Location → Prop) (before after : Disk) : Prop where
  get? : ∀ location, kept location → after.get? location = before.get? location ∨
    before.get? location = none ∧ after.get? location = some .directory
  plain : before.Plain → after.Plain

namespace Keeps

variable {kept : Location → Prop} {before middle after : Disk} {location : Location}

theorem refl (kept : Location → Prop) (disk : Disk) : Keeps kept disk disk :=
  ⟨fun _ _ => .inl rfl, id⟩

theorem trans (first : Keeps kept before middle) (last : Keeps kept middle after) :
    Keeps kept before after := by
  constructor
  · intro location member
    rcases last.get? location member with same | ⟨vacant, made⟩
    · rw [same]
      exact first.get? location member
    · rcases first.get? location member with same | ⟨_, filled⟩
      · exact .inr ⟨same ▸ vacant, made⟩
      · rw [vacant] at filled
        cases filled
  · exact fun plain => last.plain (first.plain plain)

theorem weaken {fewer : Location → Prop} (keeps : Keeps kept before after)
    (inside : ∀ location, fewer location → kept location) : Keeps fewer before after :=
  ⟨fun location member => keeps.get? location (inside location member), keeps.plain⟩

theorem entry {entry : Entry} (keeps : Keeps kept before after) (member : kept location)
    (found : before.get? location = some entry) : after.get? location = some entry := by
  rcases keeps.get? location member with same | ⟨vacant, _⟩
  · rw [same, found]
  · rw [vacant] at found
    cases found

theorem file? (keeps : Keeps kept before after) (member : kept location) :
    after.file? location = before.file? location :=
  file?_of_made (keeps.get? location member)

theorem read {place : Place} {entry : Entry} (keeps : Keeps kept before after)
    (plain : before.Plain) (absolute : place.Absolute) (member : kept place.names)
    (found : before.read place.toPath = .ok entry) : after.read place.toPath = .ok entry := by
  rcases (read_toPath plain absolute entry).mp found with ⟨reachable, held⟩
  exact (read_toPath (keeps.plain plain) absolute entry).mpr ⟨reachable, keeps.entry member held⟩

end Keeps

/-- Entries of some locations have stayed, but for the content of files. -/
def Retains (kept : Location → Prop) (before after : Disk) : Prop :=
  ∀ location, kept location → (before.get? location).isSome →
    (after.get? location).isSome ∧
      (after.get? location = some .directory ↔ before.get? location = some .directory)

theorem Keeps.retains {kept : Location → Prop} {before after : Disk}
    (keeps : Keeps kept before after) : Retains kept before after := by
  intro location member there
  rcases Option.isSome_iff_exists.mp there with ⟨entry, found⟩
  rw [keeps.entry member found, found]
  simp

variable {disk after : Disk} {place : Place} {content : ByteArray}

theorem here_put (disk : Disk) (location : Location) (entry : Entry) :
    (disk.put location entry).here = disk.here := by
  unfold put
  split <;> rfl

theorem keeps_put {location : Location} {entry : Entry} (unlinked : ∀ target, entry ≠ .link target) :
    Keeps (· ≠ location) disk (disk.put location entry) := by
  constructor
  · intro other apart
    rw [get?_put, if_neg fun put => apart put.2.symm]
    exact .inl rfl
  · intro plain other target
    rw [get?_put]
    split
    · exact fun same => unlinked target (Option.some.inj same)
    · exact plain other target

/-- A directory is made where there was nothing. -/
theorem keeps_add {components : List Component} (added : disk.add components .directory = .ok after) :
    Keeps (fun _ => True) disk after := by
  unfold add at added
  split at added
  · cases added
  next location _ =>
    split at added
    · cases added
    next vacant =>
      cases added
      have put : Keeps (· ≠ location) disk (disk.put location .directory) := keeps_put nofun
      refine ⟨fun other _ => ?_, put.plain⟩
      by_cases same : other = location
      · subst same
        rw [get?_put]
        split
        · exact .inr ⟨by simpa using vacant, rfl⟩
        · exact .inl rfl
      · exact put.get? other same

theorem keeps_ensureDirectory {components : List Component}
    (ensured : disk.ensureDirectory components = .ok after) : Keeps (fun _ => True) disk after := by
  unfold ensureDirectory at ensured
  split at ensured
  next added =>
    cases ensured
    exact keeps_add added
  · split at ensured
    · split at ensured
      · cases ensured
        exact .refl _ _
      · cases ensured
    · cases ensured

theorem keeps_ensureDirectories (disk : Disk) (backwards : List Component) :
    Keeps (fun _ => True) disk (disk.ensureDirectories backwards).2 := by
  induction backwards with
  | nil => exact .refl _ _
  | cons component above ih =>
      rw [ensureDirectories]
      split
      next ensured => exact keeps_ensureDirectory ensured
      · generalize disk.ensureDirectories above = ended at ih ⊢
        rcases ended with ⟨fault | _, middle⟩
        · exact ih
        · dsimp only at ih ⊢
          split
          next ensured => exact ih.trans (keeps_ensureDirectory ensured)
          · exact ih
      · exact .refl _ _

theorem keeps_makeDirectories (disk : Disk) (path : Path) :
    Keeps (fun _ => True) disk (disk.makeDirectories path).2 := by
  unfold makeDirectories
  split
  · exact .refl _ _
  · split
    · exact .refl _ _
    · exact keeps_ensureDirectories disk _

/-- The components of an absolute place lead to its own slot. -/
theorem of_slot (plain : disk.Plain) {names : List Name} {location : Location}
    (found : disk.slot (.root :: names.map .name) = .ok location) : location = names := by
  rcases List.eq_nil_or_concat names with rfl | ⟨front, last, rfl⟩
  · have root : disk.arrive (.along .root :: along []) = .ok location := found
    exact ((arrive_along plain [] location).mp root).1
  · have components : Component.root :: (front ++ [last]).map .name =
        (.root :: front.map .name) ++ [.name last] := by simp
    rw [List.concat_eq_append, slot, components, List.getLast?_concat, List.dropLast_concat] at found
    dsimp only at found
    split at found
    · cases found
    next above arrived =>
      have steps : (Component.root :: front.map .name).map .along ++ [Step.slash] =
          .along .root :: (along front ++ [.slash]) := by
        simp [along, Function.comp_def]
      rw [steps] at arrived
      rcases (arrive_slash plain front above).mp arrived with ⟨rfl, _⟩
      split at found
      · cases found
      · rw [List.concat_eq_append]
        exact (Except.ok.inj found).symm

/-- A directory that is there is not made again. -/
theorem ensureDirectory_self (plain : disk.Plain) {names : List Name} (short : Short names)
    (found : disk.get? names = some .directory) :
    disk.ensureDirectory (.root :: names.map .name) = .ok disk := by
  have steps : (Component.root :: names.map .name).map Step.along = .along .root :: along names := by
    simp [along, Function.comp_def]
  have arrived : disk.arrive (.along .root :: along names) = .ok names :=
    (arrive_along plain names names).mpr ⟨rfl, short, by simp [found]⟩
  have refused : ∀ after, disk.add (.root :: names.map .name) .directory ≠ .ok after := by
    intro after added
    unfold add at added
    split at added
    · cases added
    next location slot =>
      obtain rfl := of_slot plain slot
      rw [found] at added
      cases added
  unfold ensureDirectory
  split
  next added => exact absurd added (refused _)
  · rw [steps, arrived]
    simp only [found, if_true]

theorem makeDirectories_self (plain : disk.Plain) (reachable : place.Reachable)
    (absolute : place.Absolute) (found : disk.get? place.names = some .directory) :
    disk.makeDirectories place.toPath = (.ok (), disk) := by
  rcases reachable with ⟨accepted, short⟩
  rw [makeDirectories, accepted]
  split
  · rfl
  · rw [absolute.toPath, Path.components_fromRoot]
    dsimp only
    obtain ⟨last, above, backwards⟩ : ∃ last above,
        (Component.root :: place.names.map .name).reverse = last :: above := by
      cases reversed : (Component.root :: place.names.map .name).reverse with
      | nil => simp at reversed
      | cons last above => exact ⟨last, above, rfl⟩
    have forwards : (last :: above).reverse = Component.root :: place.names.map .name := by
      rw [← backwards, List.reverse_reverse]
    rw [backwards, ensureDirectories, forwards, ensureDirectory_self plain short found]

/-- A file is written at its own place, in a directory. -/
theorem of_target (plain : disk.Plain) (absolute : place.Absolute) {location : Location}
    (found : disk.target place.toPath = .ok location) :
    location = place.names ∧ place.Reachable ∧ disk.Admits place.names := by
  unfold target at found
  split at found
  · cases found
  next accepted =>
    by_cases top : place.names = []
    · -- The root is a directory, over which no file is written.
      rw [absolute.toPath, top, Path.steps_fromRoot_nil, landing_root, walkWith, get?_root,
        walkWith] at found
      simp at found
    · rw [absolute.toPath, Path.steps_fromRoot top] at found
      split at found
      · cases found
      next ended =>
        cases found
        obtain ⟨rfl, short, vacant, above⟩ := of_landing_vacant plain ended
        exact ⟨rfl, ⟨accepted, short⟩, top, above, by simp [vacant]⟩
      next ended =>
        rcases (landing_along plain place.names _).mp ended with ⟨rfl, short, there⟩
        rcases Option.isSome_iff_exists.mp there with ⟨entry, there⟩
        split at found
        · cases found
        next other =>
          cases found
          exact ⟨rfl, ⟨accepted, short⟩, top, disk.get?_dropLast there, other⟩

theorem target_self (plain : disk.Plain) (absolute : place.Absolute) (reachable : place.Reachable)
    (found : disk.get? place.names = some (.file content)) :
    disk.target place.toPath = .ok place.names := by
  have below : place.names ≠ [] := by
    intro top
    simp [top] at found
  have landed : disk.landing .makeFile (.along .root :: along place.names) =
      .ok (.entry place.names) :=
    (landing_along plain place.names _).mpr ⟨rfl, reachable.2, by simp [found]⟩
  rw [target, reachable.1]
  dsimp only
  rw [absolute.toPath, Path.steps_fromRoot below]
  unfold along at landed
  simp [landed, found]

theorem keeps_makeAbove (disk : Disk) (place : Place) :
    Keeps (fun _ => True) disk (disk.makeAbove place).2 := by
  unfold makeAbove
  split
  · exact .refl _ _
  · exact keeps_makeDirectories disk _

/-- A file that is written lies at its own place then, where no directory was. -/
theorem of_write (plain : disk.Plain) (absolute : place.Absolute)
    (written : disk.write place.toPath content = .ok after) :
    Keeps (· ≠ place.names) disk after ∧ disk.get? place.names ≠ some .directory ∧
      place.Reachable ∧ after.get? place.names = some (.file content) := by
  unfold write at written
  cases targeted : disk.target place.toPath with
  | error fault =>
      rw [targeted] at written
      cases written
  | ok location =>
      rw [targeted] at written
      cases written
      obtain ⟨rfl, reachable, admitted⟩ := of_target plain absolute targeted
      refine ⟨keeps_put nofun, admitted.2.2, reachable, ?_⟩
      rw [get?_put, if_pos ⟨admitted, rfl⟩]

/-- Saving a file changes nothing else, but for new directories. -/
theorem keeps_save (plain : disk.Plain) (absolute : place.Absolute) (content : ByteArray) :
    Keeps (· ≠ place.names) disk (disk.save place content).2 := by
  have above : Keeps (· ≠ place.names) disk (disk.makeAbove place).2 :=
    (keeps_makeAbove disk place).weaken fun _ _ => trivial
  unfold save
  generalize disk.makeAbove place = made at above ⊢
  rcases made with ⟨fault | _, middle⟩
  · exact above
  · dsimp only at above ⊢
    split
    · exact above
    next written => exact above.trans (of_write (above.plain plain) absolute written).1

/-- Whether a file can be saved does not depend on what it holds. -/
theorem save_congr (disk : Disk) (place : Place) (content other : ByteArray) :
    (disk.save place content).1 = (disk.save place other).1 := by
  unfold save
  generalize disk.makeAbove place = made
  rcases made with ⟨fault | _, middle⟩
  · rfl
  · dsimp only [write]
    cases middle.target place.toPath <;> rfl

/-- A file that was saved can be read, and no directory was there. -/
theorem read_save (plain : disk.Plain) (absolute : place.Absolute)
    (saved : (disk.save place content).1 = .ok ()) :
    (disk.save place content).2.read place.toPath = .ok (.file content) ∧
      disk.get? place.names ≠ some .directory := by
  have keeps := keeps_save plain absolute content
  have above := keeps_makeAbove disk place
  unfold save at keeps saved ⊢
  generalize disk.makeAbove place = made at above keeps saved ⊢
  rcases made with ⟨fault | _, middle⟩
  · cases saved
  · dsimp only at above keeps saved ⊢
    split at saved
    · cases saved
    next written =>
      rw [written] at keeps
      obtain ⟨_, other, reachable, held⟩ := of_write (above.plain plain) absolute written
      constructor
      · exact (read_toPath (keeps.plain plain) absolute _).mpr ⟨reachable, held⟩
      · exact fun directory => other (above.entry trivial directory)

/-- Saving a file leaves all entries there. -/
theorem retains_save (plain : disk.Plain) (absolute : place.Absolute)
    (saved : (disk.save place content).1 = .ok ()) :
    Retains (fun _ => True) disk (disk.save place content).2 := by
  intro location _ there
  have keeps := keeps_save plain absolute content
  by_cases same : location = place.names
  · obtain ⟨read, other⟩ := read_save plain absolute saved
    have held := ((read_toPath (keeps.plain plain) absolute _).mp read).2
    subst same
    simp [held, other]
  · exact keeps.retains location same there

/-- The directories above a place can be reached like the place. -/
theorem reachable_above {names above : List Name} (reachable : Place.Reachable ⟨.root, names⟩)
    (within : above <+: names) : Place.Reachable ⟨.root, above⟩ := by
  rcases reachable with ⟨accepted, short⟩
  refine ⟨?_, fun name member => short name (within.subset member)⟩
  rw [(Place.absolute_root _).toPath] at accepted ⊢
  exact Path.fault?_fromRoot_above accepted within

/-- A file that can be read is saved again without a failure. -/
theorem save_of_read (plain : disk.Plain) (absolute : place.Absolute) {old : ByteArray}
    (found : disk.read place.toPath = .ok (.file old)) (content : ByteArray) :
    (disk.save place content).1 = .ok () := by
  rcases (read_toPath plain absolute _).mp found with ⟨reachable, held⟩
  have above : disk.makeAbove place = (.ok (), disk) := by
    rcases place with ⟨anchor, names⟩
    cases absolute
    rcases List.eq_nil_or_concat names with rfl | ⟨front, last, rfl⟩
    · rfl
    · rw [List.concat_eq_append] at reachable held ⊢
      have directory : disk.get? front = some .directory := by
        simpa using disk.get?_dropLast held
      have parent : (Place.mk .root (front ++ [last])).toPath.parent? =
          some (Place.mk .root front).toPath := Path.parent?_fromRoot_concat front last
      rw [makeAbove, parent]
      exact makeDirectories_self plain (reachable_above reachable (List.prefix_append _ _))
        (Place.absolute_root _) directory
  rw [save, above]
  simp only [write, target_self plain absolute reachable held, Except.map]

/-- A disk with the given files. -/
def ofFiles (files : List (Path × String)) : Disk :=
  files.foldl (fun disk (path, content) => (disk.save (.ofPath path) content.toUTF8).2) .empty

/-- Files bring no links with them. -/
theorem plain_ofFiles {files : List (Path × String)}
    (absolute : ∀ file ∈ files, file.1.isAbsolute = true) : (ofFiles files).Plain := by
  have onward : ∀ disk : Disk, disk.Plain → (files.foldl
      (fun disk (path, content) => (disk.save (.ofPath path) content.toUTF8).2) disk).Plain := by
    induction files with
    | nil => exact fun _ plain => plain
    | cons file rest ih =>
        intro disk plain
        have here := Place.absolute_ofPath (absolute file List.mem_cons_self)
        exact ih (fun other member => absolute other (List.mem_cons_of_mem _ member)) _
          ((keeps_save plain here _).plain plain)
  exact onward .empty (by decide +kernel)

end Disk

end Stencil
