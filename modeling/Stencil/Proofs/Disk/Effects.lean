import Stencil.Proofs.Disk.Arrivals
import Stencil.Proofs.Disk.Developing

/-!
# What making directories and writing files change

On a disk without links, directories are made nowhere but where the path of a directory and those above
it lie, and a file is written nowhere but where its path lies.  A file that was written is read back
along its path.
-/

namespace Stencil.Disk

/-- A location is that of a directory on the way along a path: the path lies there when components
are taken away at its end. -/
def Above (disk : Disk) (path : Path) (location : Location) : Prop :=
  ∃ count < path.components.length,
    location = disk.locate ((path.components.take count).foldl .follow .here)

instance (disk : Disk) (path : Path) (location : Location) : Decidable (disk.Above path location) :=
  inferInstanceAs (Decidable (∃ _ < _, _))

variable {disk after : Disk} {components : List Component} {location : Location}

theorem locate_congr (here : after.here = disk.here) (place : Place) :
    after.locate place = disk.locate place := by
  unfold locate
  rw [here]

/-- A new entry is put where its path lies. -/
theorem of_slot_vacant (plain : disk.Plain) (nonempty : components ≠ [])
    (found : disk.slot components = .ok location) (vacant : disk.get? location = none) :
    location = disk.locate (components.foldl .follow .here) := by
  unfold slot at found
  split at found
  next name last =>
    obtain ⟨front, rfl⟩ := List.getLast?_eq_some_iff.mp last
    rw [List.dropLast_concat] at found
    split at found
    · cases found
    next above arrived =>
      obtain ⟨leads, -⟩ := of_arrive plain (by simp) arrived
      split at found
      · cases found
      · rw [List.foldl_append, List.foldl_cons, List.foldl_nil, locate_follow, locate_foldl,
          locate_here, ← Except.ok.inj found, leads, List.foldl_append]
        rfl
  · obtain ⟨-, there⟩ := of_arrive plain (by simpa using nonempty) found
    rw [vacant] at there
    cases there

/-- A new directory is made where its path lies. -/
theorem develops_add (plain : disk.Plain) (nonempty : components ≠ [])
    (added : disk.add components .directory = .ok after) :
    Develops (· = disk.locate (components.foldl .follow .here)) (fun _ _ => False) disk after := by
  unfold add at added
  split at added
  · cases added
  next slot found =>
    split at added
    · cases added
    next vacant =>
      have vacant : disk.get? slot = none := by simpa using vacant
      obtain rfl := of_slot_vacant plain nonempty found vacant
      obtain rfl := Except.ok.inj added
      refine ⟨fun other => ?_, here_put _ _ _⟩
      rw [get?_put]
      split
      next put =>
        obtain rfl := put.2
        exact .inr (.inl ⟨vacant, rfl, rfl⟩)
      · exact .inl rfl

theorem develops_ensureDirectory (plain : disk.Plain) (nonempty : components ≠ [])
    (ensured : disk.ensureDirectory components = .ok after) :
    Develops (· = disk.locate (components.foldl .follow .here)) (fun _ _ => False) disk after := by
  unfold ensureDirectory at ensured
  split at ensured
  next added =>
    cases ensured
    exact develops_add plain nonempty added
  · split at ensured
    · split at ensured
      · cases ensured
        exact .refl _ _ _
      · cases ensured
    · cases ensured

/-- Directories are made where components or the first ones of them lead. -/
theorem develops_ensureDirectories (plain : disk.Plain) (backwards : List Component) :
    Develops (fun location => ∃ above, above <+: backwards.reverse ∧
        location = disk.locate (above.foldl .follow .here))
      (fun _ _ => False) disk (disk.ensureDirectories backwards).2 := by
  induction backwards with
  | nil => exact .refl _ _ _
  | cons component above ih =>
      have further : ∀ {location : Location}, (∃ first, first <+: above.reverse ∧
          location = disk.locate (first.foldl .follow .here)) →
          ∃ first, first <+: (component :: above).reverse ∧
            location = disk.locate (first.foldl .follow .here) := by
        rintro location ⟨first, within, leads⟩
        rw [List.reverse_cons]
        exact ⟨first, within.trans (List.prefix_append _ _), leads⟩
      have own : ∀ {middle last : Disk}, middle.Plain → middle.here = disk.here →
          middle.ensureDirectory (component :: above).reverse = .ok last →
          Develops (fun location => ∃ first, first <+: (component :: above).reverse ∧
            location = disk.locate (first.foldl .follow .here)) (fun _ _ => False) middle last := by
        intro middle last plain here ensured
        refine (develops_ensureDirectory plain (by simp) ensured).mono ?_ fun _ _ => id
        rintro location rfl
        exact ⟨_, List.prefix_refl _, locate_congr here _⟩
      rw [ensureDirectories]
      split
      next ensured => exact own plain rfl ensured
      · generalize disk.ensureDirectories above = ended at ih ⊢
        rcases ended with ⟨fault | _, middle⟩
        · exact ih.mono (fun _ => further) fun _ _ => id
        · dsimp only at ih ⊢
          have develops := ih.mono (fun _ => further) fun _ _ => id
          split
          next ensured => exact develops.trans (own (develops.plain plain) develops.here ensured)
          · exact develops
      · exact .refl _ _ _

/-- The directories above a path are made where components of the path lead. -/
theorem develops_makeDirectories (plain : disk.Plain) {path parent : Path}
    (found : path.parent? = some parent) :
    Develops (disk.Above path) (fun _ _ => False) disk (disk.makeDirectories parent).2 := by
  unfold makeDirectories
  split
  · exact .refl _ _ _
  · split
    · exact .refl _ _ _
    · refine (develops_ensureDirectories plain parent.components.reverse).mono ?_ fun _ _ => id
      rintro location ⟨above, within, leads⟩
      rw [List.reverse_reverse, Path.components_of_parent? found] at within
      have filled : path.components ≠ [] := by
        intro empty
        simp [Path.parent?, empty] at found
      have shorter := within.length_le
      have length := List.length_pos_iff.mpr filled
      rw [List.length_dropLast] at shorter
      refine ⟨above.length, by omega, ?_⟩
      rwa [← List.prefix_iff_eq_take.mp (within.trans (List.dropLast_prefix _))]

/-- A walk to make a file comes to the file once it is there. -/
theorem walkWith_again {follow again : Location → List Step → Except Fault Landing}
    {start : Location} {steps : List Step} {landing : Landing} {content : ByteArray}
    (plain : disk.Plain)
    (kept : ∀ other, other ≠ landing.location → after.get? other = disk.get? other)
    (file : after.get? landing.location = some (.file content))
    (free : disk.get? landing.location ≠ some .directory)
    (ended : disk.walkWith .makeFile follow start steps = .ok landing) :
    after.walkWith .look again start steps = .ok (.entry landing.location) := by
  induction steps generalizing start with
  | nil =>
      cases ended
      rfl
  | cons step rest ih =>
      obtain ⟨directory, fits, ends⟩ := of_walkWith_cons plain ended
      have still : after.get? start = some .directory := by
        rw [kept start, directory]
        rintro rfl
        exact free directory
      rcases ends with ⟨there, onward⟩ | ⟨name, rfl, rfl, vacant, rfl⟩
      · have found : ∃ entry, after.get? (start.advance step) = some entry ∧
            ∀ target, entry ≠ .link target := by
          by_cases own : start.advance step = landing.location
          · exact ⟨.file content, by rw [own, file], nofun⟩
          · obtain ⟨entry, held⟩ := Option.isSome_iff_exists.mp there
            refine ⟨entry, by rw [kept _ own, held], ?_⟩
            rintro target rfl
            exact plain _ target held
        obtain ⟨entry, held, unlinked⟩ := found
        rw [walkWith_look_cons fits still held unlinked]
        exact ih onward
      · rw [walkWith_look_cons fits still file nofun]
        rfl

/-- A file is put where a walk ends, unless there is a directory. -/
theorem Landing.Lies.admits {landing : Landing} (lies : landing.Lies disk)
    (free : disk.get? landing.location ≠ some .directory) : disk.Admits landing.location := by
  cases landing with
  | vacant location => exact ⟨lies.1, lies.2.2, free⟩
  | entry location =>
      obtain ⟨entry, held⟩ := Option.isSome_iff_exists.mp lies
      refine ⟨?_, disk.get?_dropLast held, free⟩
      rintro top
      exact free (by rw [top, get?_root])

theorem of_target_ok (plain : disk.Plain) {path : Path} (targeted : disk.target path = .ok location) :
    path.fault? = none ∧ ∃ landing : Landing, disk.landing .makeFile path.steps = .ok landing ∧
      landing.location = location ∧ disk.Admits landing.location := by
  unfold target at targeted
  split at targeted
  · cases targeted
  next accepted =>
    refine ⟨accepted, ?_⟩
    split at targeted
    · cases targeted
    next vacant ended =>
      obtain ⟨-, lies⟩ := of_landing plain (steps_ne_nil accepted) ended
      refine ⟨_, ended, Except.ok.inj targeted, lies.admits ?_⟩
      rw [Landing.location, lies.2.1]
      nofun
    next there ended =>
      obtain ⟨-, lies⟩ := of_landing plain (steps_ne_nil accepted) ended
      split at targeted
      · cases targeted
      next free => exact ⟨_, ended, Except.ok.inj targeted, lies.admits free⟩

section Writing

variable (plain : disk.Plain) {path : Path} {content : ByteArray}
  (wrote : disk.write path content = .ok after)

include plain wrote

/-- What is written is put where the walk along the path ends. -/
theorem of_write_ok :
    path.fault? = none ∧ ∃ landing : Landing, disk.landing .makeFile path.steps = .ok landing ∧
      disk.Admits landing.location ∧ after = disk.put landing.location (.file content) := by
  unfold write at wrote
  cases targeted : disk.target path with
  | error fault =>
      rw [targeted] at wrote
      cases wrote
  | ok location =>
      rw [targeted] at wrote
      obtain rfl := Except.ok.inj wrote
      obtain ⟨accepted, landing, ended, rfl, admits⟩ := of_target_ok plain targeted
      exact ⟨accepted, landing, ended, admits, rfl⟩

/-- A file is written where its path lies. -/
theorem develops_write :
    Develops (fun _ => False)
      (fun location bytes => location = disk.locate (.ofPath path) ∧ bytes = content) disk after := by
  obtain ⟨accepted, landing, ended, admits, rfl⟩ := of_write_ok plain wrote
  obtain ⟨leads, -⟩ := of_landing plain (steps_ne_nil accepted) ended
  refine ⟨fun other => ?_, here_put _ _ _⟩
  rw [get?_put]
  split
  next put =>
    obtain rfl := put.2
    exact .inr (.inr ⟨content, admits.2.2, rfl, by rw [locate_ofPath, leads], rfl⟩)
  · exact .inl rfl

/-- A file that was written is read along the same path. -/
theorem read_write : after.read path = .ok (.file content) := by
  obtain ⟨accepted, landing, ended, admits, rfl⟩ := of_write_ok plain wrote
  have file : (disk.put landing.location (.file content)).get? landing.location =
      some (.file content) := by
    rw [get?_put, if_pos ⟨admits, rfl⟩]
  have kept : ∀ other, other ≠ landing.location →
      (disk.put landing.location (.file content)).get? other = disk.get? other :=
    fun other apart => by rw [get?_put, if_neg fun put => apart put.2.symm]
  have found : (disk.put landing.location (.file content)).landing .look path.steps =
      .ok (.entry landing.location) := by
    unfold Disk.landing linkLimit walk at ended ⊢
    rw [here_put]
    exact walkWith_again plain kept file admits.2.2 ended
  simp only [read, find, accepted, arrive, found, file]

end Writing

end Stencil.Disk
