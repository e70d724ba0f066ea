import Stencil.Proofs.Disk.Paving

/-!
# Reading beside a directory

Files that are written below a place, and directories that are made on the way there, change nothing
for those who read elsewhere.  There is one exception: a name that is too long to be looked up is
only noticed once the directory it would be looked up in is there.
-/

namespace Stencil.Disk

/-- Nothing has changed outside of a place, but for directories that were made on the way there. -/
def Spares (place : Location) (before after : Disk) : Prop :=
  ∀ location, after.get? location = before.get? location ∨ place <+: location ∨
    location <+: place ∧ before.get? location = none ∧ after.get? location = some .directory

/-- Neither of two locations lies within the other. -/
def Apart (first second : Location) : Prop :=
  ¬first <+: second ∧ ¬second <+: first

instance (first second : Location) : Decidable (Apart first second) :=
  inferInstanceAs (Decidable (_ ∧ _))

/-- No name is too long that would be looked up in a directory which is missing on the way to a
place. -/
def Fits (disk : Disk) (place names : Location) : Prop :=
  ∀ above name rest, names = above ++ name :: rest → above <+: place → disk.get? above = none →
    name.text.utf8ByteSize ≤ nameLimit

variable {before after : Disk} {place names : Location}

theorem fits_of_short (short : Short names) : before.Fits place names := by
  rintro above name rest rfl - -
  exact short name (by simp)

theorem Spares.get?_of_apart (spares : Spares place before after) (apart : Apart place names) :
    after.get? names = before.get? names := by
  rcases spares names with same | within | ⟨above, -⟩
  · exact same
  · exact absurd within apart.1
  · exact absurd above apart.2

theorem Spares.file? (spares : Spares place before after) (apart : Apart place names) :
    after.file? names = before.file? names := by
  rw [Disk.file?, Disk.file?, spares.get?_of_apart apart]

/-- Why a walk from a location along names comes to no entry. -/
def absence? (disk : Disk) (location : Location) : List Name → Option Fault
  | [] => if (disk.get? location).isSome then none else some .notFound
  | name :: rest =>
      (disk.barrier? location).or
        ((lengthFault? name).or (disk.absence? (location ++ [name]) rest))

theorem absence?_eq (disk : Disk) (location : Location) (names : List Name) :
    disk.absence? location names =
      (disk.hindrance? location names).or
        (if (disk.get? (location ++ names)).isSome then none else some .notFound) := by
  induction names generalizing location with
  | nil => simp [absence?, hindrance?]
  | cons name rest ih => simp [absence?, hindrance?, ih, Option.or_assoc]

theorem arrive_of_absence? {disk : Disk} (plain : disk.Plain) (names : List Name) :
    disk.arrive (.along .root :: along names) =
      match disk.absence? [] names with
      | some fault => .error fault
      | none => .ok names := by
  rw [arrive_names plain, absence?_eq, List.nil_append]
  cases disk.hindrance? [] names with
  | some fault => rfl
  | none =>
      rw [Option.none_or]
      dsimp only
      by_cases there : (disk.get? names).isSome
      · rw [if_pos there, if_pos there]
      · rw [if_neg there, if_neg there]

/-- What a place below the root is found to be. -/
theorem find_eq {disk : Disk} (plain : disk.Plain) {place : Place} (absolute : place.Absolute)
    (below : place.names ≠ []) :
    disk.find place.toPath =
      match place.toPath.fault?.or (disk.absence? [] place.names) with
      | some fault => .error fault
      | none => .ok place.names := by
  rw [find, absolute.toPath, Path.steps_fromRoot below]
  cases (Path.fromRoot place.names).fault? with
  | some fault => rfl
  | none => exact arrive_of_absence? plain place.names

/-- Whether a walk to an entry succeeds depends on the names alone. -/
theorem absence?_of_there {disk : Disk} {location : Location} {names : List Name}
    (there : (disk.get? (location ++ names)).isSome) :
    disk.absence? location names = names.findSome? lengthFault? := by
  induction names generalizing location with
  | nil =>
      rw [List.append_nil] at there
      simp [absence?, there]
  | cons name rest ih =>
      obtain ⟨entry, held⟩ := Option.isSome_iff_exists.mp there
      have directory := get?_of_append (List.cons_ne_nil name rest) held
      rw [absence?, barrier?, directory, ih (by simpa using there)]
      simp only [Option.none_or, List.findSome?_cons]
      cases lengthFault? name <;> rfl

/-- What is read at a place is what stands there, once the place is found. -/
theorem read_of_find (plain : before.Plain) {source : Place} (absolute : source.Absolute)
    (found : after.find source.toPath = before.find source.toPath)
    (same : after.get? source.names = before.get? source.names) :
    after.read source.toPath = before.read source.toPath := by
  rw [Disk.read, Disk.read, found]
  cases arrived : before.find source.toPath with
  | error fault => rfl
  | ok location =>
      obtain ⟨rfl, -⟩ := (find_toPath plain absolute location).mp arrived
      dsimp only
      rw [same]

/-- What is read at an entry that stays is the same, and so is the fault when it cannot be read. -/
theorem readText_of_there (plain : before.Plain) (also : after.Plain) {source : Place}
    (absolute : source.Absolute) (there : (before.get? source.names).isSome)
    (same : after.get? source.names = before.get? source.names) :
    after.readText source.toPath = before.readText source.toPath := by
  obtain ⟨entry, held⟩ := Option.isSome_iff_exists.mp there
  have reads : after.read source.toPath = before.read source.toPath := by
    by_cases reachable : source.Reachable
    · rw [(read_toPath plain absolute entry).mpr ⟨reachable, held⟩,
        (read_toPath also absolute entry).mpr ⟨reachable, same.trans held⟩]
    · have below : source.names ≠ [] := by
        intro top
        apply reachable
        obtain rfl := absolute.ext (Place.absolute_root []) top
        have accepted : (Place.mk .root []).toPath.fault? = none := by decide
        exact ⟨accepted, nofun⟩
      have found : after.find source.toPath = before.find source.toPath := by
        rw [find_eq plain absolute below, find_eq also absolute below,
          @absence?_of_there before [] _ there,
          @absence?_of_there after [] _ (by rwa [List.nil_append, same])]
      exact read_of_find plain absolute found same
  rw [Disk.readText, Disk.readText, reads]

section Walks

variable {location whole : Location}

/-- Where a directory was missing, a walk that leaves the way to the place comes to nothing. -/
theorem Spares.absence?_of_missing (spares : Spares place before after)
    (apart : Apart place whole) (fits : before.Fits place whole)
    (split : whole = location ++ names) (missing : before.get? location = none) :
    after.absence? location names = some .notFound := by
  induction names generalizing location with
  | nil =>
      rw [List.append_nil] at split
      rw [absence?, ← split, spares.get?_of_apart apart, split, missing]
      rfl
  | cons name rest ih =>
      have onward : whole = (location ++ [name]) ++ rest := by simp [split]
      rw [absence?, barrier?]
      rcases spares location with same | within | ⟨above, -, made⟩
      · rw [same, missing]
        rfl
      · exact absurd (within.trans ⟨name :: rest, split.symm⟩) apart.1
      · have short : lengthFault? name = none := by
          rw [lengthFault?, if_neg]
          exact Nat.not_lt.mpr (fits location name rest split above missing)
        rw [made, short]
        exact ih onward (get?_concat_eq_none name missing)

/-- A walk that leaves the way to the place comes to the same end as before. -/
theorem Spares.absence? (spares : Spares place before after) (apart : Apart place whole)
    (fits : before.Fits place whole) (split : whole = location ++ names) :
    after.absence? location names = before.absence? location names := by
  induction names generalizing location with
  | nil =>
      rw [List.append_nil] at split
      rw [Disk.absence?, Disk.absence?, ← split, spares.get?_of_apart apart]
  | cons name rest ih =>
      have onward : whole = (location ++ [name]) ++ rest := by simp [split]
      rcases spares location with same | within | ⟨-, missing, -⟩
      · rw [Disk.absence?, Disk.absence?, ih onward, barrier?, barrier?, same]
      · exact absurd (within.trans ⟨name :: rest, split.symm⟩) apart.1
      · rw [spares.absence?_of_missing apart fits split missing, Disk.absence?, barrier?, missing]
        rfl

end Walks

/-- What is read beside the place is the same as before, and so is the fault when it cannot be
read. -/
theorem Spares.readText (spares : Spares place before after) (plain : before.Plain)
    (also : after.Plain) {source : Place} (absolute : source.Absolute)
    (apart : Apart place source.names) (fits : before.Fits place source.names) :
    after.readText source.toPath = before.readText source.toPath := by
  have below : source.names ≠ [] := by
    intro top
    rw [top] at apart
    exact apart.2 List.nil_prefix
  have found : after.find source.toPath = before.find source.toPath := by
    rw [find_eq plain absolute below, find_eq also absolute below, spares.absence? apart fits rfl]
  rw [Disk.readText, Disk.readText,
    read_of_find plain absolute found (spares.get?_of_apart apart)]

end Stencil.Disk
