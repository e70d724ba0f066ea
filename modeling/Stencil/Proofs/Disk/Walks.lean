import Stencil.Disk.Walk
import Stencil.Proofs.Path.Places

/-!
# Walks on disks without links

On a disk without links, a walk from the root along names can only end where the names say.  So what
is read at an absolute place is what the disk holds there, unless the path or one of its names is
too long to be followed.
-/

namespace Stencil

namespace Disk

/-- Where an entry that is a link leads. -/
def Entry.target? : Entry → Option Path
  | .link target => some target
  | _ => none

/-- A disk has no links. -/
def Plain (disk : Disk) : Prop :=
  ∀ location target, disk.get? location ≠ some (.link target)

instance (disk : Disk) : Decidable disk.Plain :=
  decidable_of_iff (∀ found ∈ disk.entries.toList, ∀ target ∈ found.2.target?, False) <| by
    constructor
    · intro all location target held
      have member := Std.ExtTreeMap.mem_toList_iff_getElem?_eq_some.mpr held
      exact all _ member target rfl
    · rintro plain ⟨location, entry⟩ member target held
      have found := Std.ExtTreeMap.mem_toList_iff_getElem?_eq_some.mp member
      cases entry with
      | link path => exact plain location path found
      | file | directory => cases held

/-- No name is too long to be looked up. -/
def Short (names : List Name) : Prop :=
  ∀ name ∈ names, name.text.utf8ByteSize ≤ nameLimit

/-- The steps along names. -/
def along (names : List Name) : List Step :=
  names.map fun name => .along (.name name)

theorem short_cons {name : Name} {rest : List Name} :
    Short (name :: rest) ↔ name.text.utf8ByteSize ≤ nameLimit ∧ Short rest := by
  simp [Short]

variable {disk : Disk} {purpose : Purpose} {follow : Location → List Step → Except Fault Landing}
  {location : Location} {names : List Name} {rest : List Step} {entry : Entry}

/-- Above every entry there are directories. -/
theorem get?_of_append (below : names ≠ []) (found : disk.get? (location ++ names) = some entry) :
    disk.get? location = some .directory := by
  induction names generalizing location with
  | nil => exact absurd rfl below
  | cons name rest ih =>
      by_cases last : rest = []
      · subst last
        simpa using disk.get?_dropLast found
      · have next : disk.get? (location ++ [name]) = some .directory := by
          apply ih last
          simpa using found
        simpa using disk.get?_dropLast next

/-- There is an entry wherever names that lead to one come by. -/
theorem isSome_of_append (found : (disk.get? (location ++ names)).isSome) :
    (disk.get? location).isSome := by
  by_cases last : names = []
  · rwa [last, List.append_nil] at found
  · obtain ⟨entry, found⟩ := Option.isSome_iff_exists.mp found
    rw [get?_of_append last found]
    rfl

/-- Names that lead straight to an entry are followed to it, unless it is a link. -/
theorem walkWith_straight (short : Short names)
    (found : disk.get? (location ++ names) = some entry) (unlinked : ∀ target, entry ≠ .link target)
    (bare : purpose = .makeFile → rest = []) :
    disk.walkWith purpose follow location (along names ++ rest) =
      disk.walkWith purpose follow (location ++ names) rest := by
  induction names generalizing location with
  | nil => simp [along]
  | cons name others ih =>
      rcases short_cons.mp short with ⟨fits, short⟩
      have directory := get?_of_append (List.cons_ne_nil name others) found
      have onward : disk.get? ((location ++ [name]) ++ others) = some entry := by simpa using found
      have unslashed : ¬(purpose = .makeFile ∧ along others ++ rest = [.slash]) := by
        rintro ⟨makes, slash⟩
        rw [bare makes, List.append_nil] at slash
        cases others <;> simp [along] at slash
      obtain ⟨held, there, stays⟩ : ∃ held, disk.get? (location ++ [name]) = some held ∧
          ∀ target, held ≠ .link target := by
        by_cases last : others = []
        · exact ⟨entry, by simpa [last] using onward, unlinked⟩
        · exact ⟨.directory, get?_of_append last onward, nofun⟩
      have taken : disk.walkWith purpose follow location
          (.along (.name name) :: (along others ++ rest)) =
            disk.walkWith purpose follow (location ++ [name]) (along others ++ rest) := by
        rw [walkWith, directory]
        simp only [if_neg unslashed, if_neg (Nat.not_lt.mpr fits), there]
      have whole := ih short onward
      rw [List.append_assoc, List.singleton_append] at whole
      rw [← whole, ← taken]
      rfl

/-- Names that lead to an entry are followed to it. -/
theorem walkWith_along (plain : disk.Plain) (short : Short names)
    (found : disk.get? (location ++ names) = some entry)
    (bare : purpose = .makeFile → rest = []) :
    disk.walkWith purpose follow location (along names ++ rest) =
      disk.walkWith purpose follow (location ++ names) rest :=
  walkWith_straight short found (fun target link => plain _ target (link ▸ found)) bare

/-- A walk along names comes to where they lead, or stops before the last one when there is no entry
with it. -/
theorem of_walkWith_along (plain : disk.Plain) {landing : Landing}
    (start : (disk.get? location).isSome)
    (ended : disk.walkWith purpose follow location (along names ++ rest) = .ok landing) :
    Short names ∧
      ((disk.get? (location ++ names)).isSome ∧
          disk.walkWith purpose follow (location ++ names) rest = .ok landing ∨
        names ≠ [] ∧ disk.get? (location ++ names) = none ∧
          disk.get? (location ++ names).dropLast = some .directory ∧
            landing = .vacant (location ++ names)) := by
  induction names generalizing location with
  | nil =>
      rw [List.append_nil]
      exact ⟨nofun, .inl ⟨start, ended⟩⟩
  | cons name others ih =>
      have step : along (name :: others) ++ rest =
        .along (.name name) :: (along others ++ rest) := rfl
      rw [step, walkWith] at ended
      split at ended
      · cases ended
      · cases ended
      · cases ended
      next directory =>
        split at ended
        · cases ended
        split at ended
        · cases ended
        next fits =>
          have fits := Nat.not_lt.mp fits
          split at ended
          next vacant =>
            split at ended
            next stops =>
              obtain rfl : others = [] := by simp_all [along]
              refine ⟨short_cons.mpr ⟨fits, nofun⟩, .inr ⟨nofun, vacant, ?_, ?_⟩⟩
              · simpa using directory
              · exact (Except.ok.inj ended).symm
            · cases ended
          next target there => exact absurd there (plain _ target)
          next held _ there =>
            have next : (disk.get? (location ++ [name])).isSome := by simp [there]
            have onward := ih next ended
            simp only [List.append_assoc, List.singleton_append] at onward
            rcases onward with ⟨short, ends⟩
            refine ⟨short_cons.mpr ⟨fits, short⟩, ends.imp id fun ⟨_, vacant⟩ => ⟨nofun, vacant⟩⟩

/-- A walk begins in a directory. -/
theorem directory_of_walkWith_cons {step : Step} {landing : Landing}
    (ended : disk.walkWith purpose follow location (step :: rest) = .ok landing) :
    disk.get? location = some .directory := by
  unfold walkWith at ended
  split at ended
  · cases ended
  · cases ended
  · cases ended
  next directory => exact directory

/-- The first step of a walk from the root leads to the root. -/
theorem landing_root (steps : List Step) :
    disk.landing purpose (.along .root :: steps) =
      disk.walkWith purpose (disk.walk purpose 39) [] steps := by
  simp [landing, linkLimit, walk, walkWith]

/-- A walk along names comes to an entry where they lead, if there is one. -/
theorem walkWith_entry (plain : disk.Plain) (start : (disk.get? location).isSome)
    (other : Location) :
    disk.walkWith purpose follow location (along names) = .ok (.entry other) ↔
      other = location ++ names ∧ Short names ∧ (disk.get? (location ++ names)).isSome := by
  rw [← List.append_nil (along names)]
  constructor
  · intro ended
    obtain ⟨short, ⟨there, ended⟩ | ⟨_, _, _, ended⟩⟩ := of_walkWith_along plain start ended
    · cases ended
      exact ⟨rfl, short, there⟩
    · cases ended
  · rintro ⟨rfl, short, there⟩
    rcases Option.isSome_iff_exists.mp there with ⟨entry, there⟩
    rw [walkWith_along plain short there fun _ => rfl]
    rfl

/-- A walk to look ends where the names lead, and there is an entry. -/
theorem landing_along (plain : disk.Plain) (names : List Name) (location : Location) :
    disk.landing purpose (.along .root :: along names) = .ok (.entry location) ↔
      location = names ∧ Short names ∧ (disk.get? names).isSome := by
  rw [landing_root]
  exact walkWith_entry plain (by simp) location

/-- A walk that ends at no entry ends where the names lead, in a directory. -/
theorem of_landing_vacant (plain : disk.Plain) {names : List Name} {location : Location}
    (ended : disk.landing purpose (.along .root :: along names) = .ok (.vacant location)) :
    location = names ∧ Short names ∧ disk.get? names = none ∧
      disk.get? names.dropLast = some .directory := by
  have root : (disk.get? []).isSome := by simp
  rw [landing_root, ← List.append_nil (along names)] at ended
  obtain ⟨short, ⟨_, ended⟩ | ⟨_, vacant, above, ended⟩⟩ := of_walkWith_along plain root ended
  · cases ended
  · cases ended
    exact ⟨rfl, short, vacant, above⟩

/-- A walk over a slash ends in a directory. -/
theorem arrive_slash (plain : disk.Plain) (names : List Name) (location : Location) :
    disk.arrive (.along .root :: (along names ++ [.slash])) = .ok location ↔
      location = names ∧ Short names ∧ disk.get? names = some .directory := by
  have root : (disk.get? []).isSome := by simp
  rw [arrive, landing_root]
  constructor
  · intro ended
    split at ended
    next ending =>
      obtain ⟨short, ⟨there, ends⟩ | ⟨_, _, _, ends⟩⟩ := of_walkWith_along plain root ending
      · rw [List.nil_append, walkWith] at ends
        split at ends
        · cases ends
        · cases ends
        · cases ends
        next directory =>
          cases ends
          cases ended
          exact ⟨rfl, short, directory⟩
      · cases ends
    · cases ended
    · cases ended
  · rintro ⟨rfl, short, directory⟩
    have found : disk.get? ([] ++ location) = some .directory := directory
    have looks : Purpose.look = .makeFile → [Step.slash] = [] := nofun
    rw [walkWith_along plain short found looks, List.nil_append, walkWith, directory]
    rfl

theorem arrive_along (plain : disk.Plain) (names : List Name) (location : Location) :
    disk.arrive (.along .root :: along names) = .ok location ↔
      location = names ∧ Short names ∧ (disk.get? names).isSome := by
  rw [← @landing_along disk .look plain, arrive]
  split <;> simp_all

end Disk

/-- A walk may lead to a place: its path is accepted, and none of its names is too long. -/
def Place.Reachable (place : Place) : Prop :=
  place.toPath.fault? = none ∧ Disk.Short place.names

namespace Disk

variable {disk : Disk} {place : Place}

/-- An absolute place is found at its own names. -/
theorem find_toPath (plain : disk.Plain) (absolute : place.Absolute) (location : Location) :
    disk.find place.toPath = .ok location ↔
      location = place.names ∧ place.Reachable ∧ (disk.get? place.names).isSome := by
  unfold find Place.Reachable
  rw [absolute.toPath]
  cases (Path.fromRoot place.names).fault? with
  | some fault => simp
  | none =>
      have arrives : disk.arrive (Path.fromRoot place.names).steps = .ok location ↔
          location = place.names ∧ Short place.names ∧ (disk.get? place.names).isSome := by
        by_cases top : place.names = []
        · rw [top, Path.steps_fromRoot_nil, ← List.nil_append [Step.slash]]
          exact (arrive_slash plain [] location).trans (by simp)
        · rw [Path.steps_fromRoot top]
          exact arrive_along plain place.names location
      simpa using arrives

/-- Where a place lies on a disk without links. -/
def locate (disk : Disk) (place : Place) : Location :=
  match place.anchor with
  | .root => place.names
  | .above levels => disk.here.take (disk.here.length - levels) ++ place.names

@[simp]
theorem locate_below (disk : Disk) (directory : Place) (inside : List Name) :
    disk.locate (directory.below inside) = disk.locate directory ++ inside := by
  unfold locate Place.below
  cases directory.anchor <;> simp

/-- What is read at a place is what the disk holds there. -/
theorem read_toPath (plain : disk.Plain) (absolute : place.Absolute) (entry : Entry) :
    disk.read place.toPath = .ok entry ↔
      place.Reachable ∧ disk.get? place.names = some entry := by
  unfold read
  constructor
  · intro found
    split at found
    · cases found
    next location arrived =>
      rcases (find_toPath plain absolute location).mp arrived with ⟨rfl, reachable, -⟩
      split at found
      · cases found
      next held =>
        cases found
        exact ⟨reachable, held⟩
  · rintro ⟨reachable, held⟩
    rw [(find_toPath plain absolute place.names).mpr ⟨rfl, reachable, by simp [held]⟩]
    simp only [held]

theorem isDirectory_toPath (plain : disk.Plain) (absolute : place.Absolute) :
    disk.isDirectory place.toPath = true ↔
      place.Reachable ∧ disk.get? place.names = some .directory := by
  rw [← read_toPath plain absolute, isDirectory]
  split <;> simp_all

theorem isFile_toPath (plain : disk.Plain) (absolute : place.Absolute) :
    disk.isFile place.toPath = true ↔
      place.Reachable ∧ ∃ content, disk.get? place.names = some (.file content) := by
  have read := fun content => read_toPath plain absolute (.file content)
  rw [isFile]
  split
  next content found =>
    rcases (read content).mp found with ⟨reachable, held⟩
    exact ⟨fun _ => ⟨reachable, content, held⟩, fun _ => rfl⟩
  next other =>
    refine ⟨nofun, fun ⟨reachable, content, held⟩ => ?_⟩
    exact absurd ((read content).mpr ⟨reachable, held⟩) (other content)

/-- There is a file at a path when one can be read there. -/
theorem isFile_iff {path : Path} :
    disk.isFile path = true ↔ ∃ content, disk.read path = .ok (.file content) := by
  unfold isFile
  split <;> simp_all

/-- The content of the file at a location. -/
def file? (disk : Disk) (location : Location) : Option ByteArray :=
  match disk.get? location with
  | some (.file content) => some content
  | _ => none

theorem file?_eq_some {location : Location} {content : ByteArray} :
    disk.file? location = some content ↔ disk.get? location = some (.file content) := by
  unfold file?
  split <;> simp_all

/-- Two disks with the same file at a place are alike for those who look for a file there. -/
theorem isFile_congr {other : Disk} (plain : disk.Plain) (also : other.Plain)
    (absolute : place.Absolute) (same : other.file? place.names = disk.file? place.names) :
    other.isFile place.toPath = disk.isFile place.toPath := by
  rw [Bool.eq_iff_iff, isFile_toPath plain absolute, isFile_toPath also absolute]
  simp only [← file?_eq_some, same]

/-- Two disks with the same file at a place have the same text there. -/
theorem readText_congr {other : Disk} (plain : disk.Plain) (also : other.Plain)
    (absolute : place.Absolute) (same : other.file? place.names = disk.file? place.names)
    (file : disk.isFile place.toPath = true) :
    other.readText place.toPath = disk.readText place.toPath := by
  rcases (isFile_toPath plain absolute).mp file with ⟨reachable, content, held⟩
  have there := file?_eq_some.mp (same.trans (file?_eq_some.mpr held))
  have read := (read_toPath plain absolute _).mpr ⟨reachable, held⟩
  have readOther := (read_toPath also absolute _).mpr ⟨reachable, there⟩
  rw [readText, readText, read, readOther]

/-- The names in a directory are those with an entry there. -/
theorem mem_names {location : Location} {name : Name} :
    name ∈ disk.names location ↔ (disk.get? (location ++ [name])).isSome := by
  unfold names get?
  rw [List.mem_filterMap]
  constructor
  · rintro ⟨other, member, found⟩
    split at found
    next above =>
      rcases List.getLast?_eq_some_iff.mp found with ⟨front, rfl⟩
      rw [List.dropLast_concat] at above
      rw [← above]
      exact Std.ExtTreeMap.mem_iff_isSome_getElem?.mp (Std.ExtTreeMap.mem_keys.mp member)
    · cases found
  · intro found
    refine ⟨location ++ [name], ?_, by simp⟩
    exact Std.ExtTreeMap.mem_keys.mpr (Std.ExtTreeMap.mem_iff_isSome_getElem?.mpr found)

end Disk

end Stencil
