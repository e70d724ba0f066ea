import Stencil.Proofs.Disk.Walks

/-!
# Where walks arrive

On a disk without links, each step of a walk leads to a location that depends on nothing but the step.
So whatever path is walked along, the walk ends where the path lies, if it ends at all.
-/

namespace Stencil.Disk

/-- The location that a step leads to when no link is on the way. -/
def Location.advance (location : Location) : Step → Location
  | .slash | .along .current => location
  | .along .root => []
  | .along .parent => location.dropLast
  | .along (.name name) => location ++ [name]

/-- The location at which a walk ends. -/
def Landing.location : Landing → Location
  | entry location => location
  | vacant location => location

/-- There is an entry where a walk ends, or a directory that has none with the name. -/
def Landing.Lies (disk : Disk) : Landing → Prop
  | entry location => (disk.get? location).isSome
  | vacant location => location ≠ [] ∧ disk.get? location = none ∧
      disk.get? location.dropLast = some .directory

variable {disk : Disk} {purpose : Purpose} {follow : Location → List Step → Except Fault Landing}
  {location : Location} {steps : List Step} {landing : Landing}

/-- A name fits when it is not too long to be looked up. -/
def Step.Fits : Step → Prop
  | .along (.name name) => name.text.utf8ByteSize ≤ nameLimit
  | _ => True

/-- A walk that ends takes its first step from a directory.  It goes on where the step leads, unless
that is a name that the directory does not have and there are no more steps. -/
theorem of_walkWith_cons (plain : disk.Plain) {step : Step}
    (ended : disk.walkWith purpose follow location (step :: steps) = .ok landing) :
    disk.get? location = some .directory ∧ step.Fits ∧
      ((disk.get? (location.advance step)).isSome ∧
          disk.walkWith purpose follow (location.advance step) steps = .ok landing ∨
        ∃ name, step = .along (.name name) ∧ steps = [] ∧
          disk.get? (location ++ [name]) = none ∧ landing = .vacant (location ++ [name])) := by
  have directory := directory_of_walkWith_cons ended
  have stays : (disk.get? location).isSome := by rw [directory]; rfl
  refine ⟨directory, ?_⟩
  rw [walkWith.eq_def] at ended
  simp only [directory] at ended
  cases step with
  | slash => exact ⟨trivial, .inl ⟨stays, ended⟩⟩
  | along component =>
      cases component with
      | root => exact ⟨trivial, .inl ⟨by rw [Location.advance, get?_root]; rfl, ended⟩⟩
      | current => exact ⟨trivial, .inl ⟨stays, ended⟩⟩
      | parent =>
          exact ⟨trivial, .inl ⟨by rw [Location.advance, disk.get?_dropLast directory]; rfl, ended⟩⟩
      | name entry =>
          dsimp only at ended
          split at ended
          · cases ended
          split at ended
          · cases ended
          next fits =>
            refine ⟨Nat.not_lt.mp fits, ?_⟩
            split at ended
            next vacant =>
              split at ended
              next last =>
                obtain rfl := List.isEmpty_iff.mp last
                exact .inr ⟨entry, rfl, rfl, vacant, (Except.ok.inj ended).symm⟩
              · cases ended
            next target there => exact absurd there (plain _ target)
            next there => exact .inl ⟨by rw [Location.advance, there]; rfl, ended⟩

/-- A walk to look takes a step from a directory to an entry that is no link. -/
theorem walkWith_look_cons {step : Step} {entry : Entry} (fits : step.Fits)
    (directory : disk.get? location = some .directory)
    (there : disk.get? (location.advance step) = some entry)
    (unlinked : ∀ target, entry ≠ .link target) :
    disk.walkWith .look follow location (step :: steps) =
      disk.walkWith .look follow (location.advance step) steps := by
  rw [walkWith.eq_def]
  simp only [directory]
  cases step with
  | slash => rfl
  | along component =>
      cases component with
      | root | current | parent => rfl
      | name name =>
          have short : ¬nameLimit < name.text.utf8ByteSize := Nat.not_lt.mpr fits
          have held : disk.get? (location ++ [name]) = some entry := there
          dsimp only
          rw [if_neg (by simp), if_neg short, held]
          cases entry with
          | link target => exact absurd rfl (unlinked target)
          | file | directory => rfl

/-- A walk ends where its steps lead. -/
theorem of_walkWith (plain : disk.Plain) (start : (disk.get? location).isSome)
    (ended : disk.walkWith purpose follow location steps = .ok landing) :
    landing.location = steps.foldl Location.advance location ∧ landing.Lies disk := by
  induction steps generalizing location with
  | nil =>
      cases ended
      exact ⟨rfl, start⟩
  | cons step rest ih =>
      obtain ⟨directory, -, ⟨there, onward⟩ | ⟨name, rfl, rfl, vacant, rfl⟩⟩ :=
        of_walkWith_cons plain ended
      · exact ih there onward
      · exact ⟨rfl, by simp, vacant, by rw [List.dropLast_concat]; exact directory⟩

/-- Steps lead from the directory that relative paths start from, wherever they begin. -/
theorem of_landing (plain : disk.Plain) (nonempty : steps ≠ [])
    (ended : disk.landing purpose steps = .ok landing) :
    landing.location = steps.foldl Location.advance disk.here ∧ landing.Lies disk := by
  obtain ⟨step, rest, rfl⟩ := List.exists_cons_of_ne_nil nonempty
  have walked : ∀ start, disk.walk purpose linkLimit start (step :: rest) = .ok landing →
      landing.location = (step :: rest).foldl Location.advance start ∧ landing.Lies disk := by
    intro start ended
    rw [linkLimit, walk] at ended
    exact of_walkWith plain (by simp [directory_of_walkWith_cons ended]) ended
  unfold Disk.landing at ended
  split at ended
  next rooted =>
    obtain rfl : step = .along .root := by simpa using rooted
    exact walked [] ended
  · exact walked disk.here ended

theorem of_arrive (plain : disk.Plain) (nonempty : steps ≠ [])
    (arrived : disk.arrive steps = .ok location) :
    location = steps.foldl Location.advance disk.here ∧ (disk.get? location).isSome := by
  unfold arrive at arrived
  split at arrived
  next ended =>
    cases arrived
    exact of_landing plain nonempty ended
  · cases arrived
  · cases arrived

section Places

variable (disk : Disk)

@[simp]
theorem locate_here : disk.locate Place.here = disk.here := by
  simp [locate, Place.here]

/-- A place that is followed lies where the step leads. -/
theorem locate_follow (place : Place) (component : Component) :
    disk.locate (place.follow component) = (disk.locate place).advance (.along component) := by
  rcases place with ⟨anchor, names⟩
  cases component with
  | root => rfl
  | current => rfl
  | name entry => exact locate_below disk ⟨anchor, names⟩ [entry]
  | parent =>
      rcases List.eq_nil_or_concat names with rfl | ⟨front, last, rfl⟩
      · cases anchor with
        | root => rfl
        | above levels =>
            simp only [Place.follow, Place.up, locate, Location.advance, List.append_nil,
              List.dropLast_eq_take, List.take_take, List.length_take]
            congr 1
            omega
      · rw [List.concat_eq_append]
        have inside : disk.locate ⟨anchor, front ++ [last]⟩ = disk.locate ⟨anchor, front⟩ ++ [last] :=
          locate_below disk ⟨anchor, front⟩ [last]
        have above : (Place.mk anchor (front ++ [last])).follow .parent = ⟨anchor, front⟩ :=
          Place.up_child ⟨anchor, front⟩ last
        rw [inside, above, Location.advance, List.dropLast_concat]

theorem locate_foldl (place : Place) (components : List Component) :
    disk.locate (components.foldl .follow place) =
      (components.map .along).foldl Location.advance (disk.locate place) := by
  induction components generalizing place with
  | nil => rfl
  | cons component rest ih =>
      rw [List.foldl_cons, ih, locate_follow]
      rfl

/-- The steps of a path lead to where it lies.  What it ends with makes no difference. -/
theorem locate_ofPath (path : Path) :
    disk.locate (.ofPath path) = path.steps.foldl Location.advance disk.here := by
  have last : ∀ location : Location,
      path.lastStep?.toList.foldl Location.advance location = location := by
    intro location
    unfold Path.lastStep?
    dsimp only
    split
    · rfl
    · split <;> rfl
  rw [Place.ofPath, locate_foldl, locate_here, Path.steps, List.foldl_append, last]

end Places

theorem steps_ne_nil {path : Path} (accepted : path.fault? = none) : path.steps ≠ [] := by
  have filled : path.text ≠ "" := by
    intro empty
    simp [Path.fault?, empty] at accepted
  rw [Path.steps, ne_eq, List.append_eq_nil_iff, List.map_eq_nil_iff]
  exact fun both => Path.components_ne_nil filled both.1

/-- What is found at a path lies where the path leads. -/
theorem of_find (plain : disk.Plain) {path : Path} (found : disk.find path = .ok location) :
    location = disk.locate (.ofPath path) ∧ (disk.get? location).isSome := by
  unfold find at found
  split at found
  · cases found
  next accepted =>
    rw [locate_ofPath]
    exact of_arrive plain (steps_ne_nil accepted) found

theorem of_find_toPath (plain : disk.Plain) {place : Place}
    (found : disk.find place.toPath = .ok location) :
    location = disk.locate place ∧ (disk.get? location).isSome := by
  have leads := of_find plain found
  rwa [Place.ofPath_toPath] at leads

end Stencil.Disk
