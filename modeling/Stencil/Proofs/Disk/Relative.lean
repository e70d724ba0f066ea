import Stencil.Proofs.Disk.Effects

/-!
# Paths that are followed from a directory

A relative path leads somewhere as long as the directory that it starts from is there.  When that is
gone, nothing is found, made or written along relative paths.  A file is found at the end of a path
that ends with a name, and nowhere else.
-/

namespace Stencil.Disk

variable {disk : Disk} {purpose : Purpose} {follow : Location → List Step → Except Fault Landing}
  {location : Location} {steps : List Step} {landing : Landing} {path : Path}

/-! ## Walks that end in a directory -/

/-- Only a name leads from a directory to something else. -/
theorem directory_advance {step : Step} (directory : disk.get? location = some .directory)
    (unnamed : ∀ name, step ≠ .along (.name name)) :
    disk.get? (location.advance step) = some .directory := by
  cases step with
  | slash => exact directory
  | along component =>
      cases component with
      | root => exact disk.get?_root
      | current => exact directory
      | parent => exact disk.get?_dropLast directory
      | name entry => exact absurd rfl (unnamed entry)

/-- A walk that does not end with a name ends in a directory. -/
theorem directory_of_walkWith (plain : disk.Plain) (nonempty : steps ≠ [])
    (unnamed : ∀ name, steps.getLast? ≠ some (.along (.name name)))
    (ended : disk.walkWith purpose follow location steps = .ok landing) :
    disk.get? landing.location = some .directory := by
  induction steps generalizing location with
  | nil => exact absurd rfl nonempty
  | cons step rest ih =>
      obtain ⟨directory, -, ⟨-, onward⟩ | ⟨name, rfl, rfl, -⟩⟩ := of_walkWith_cons plain ended
      · rcases List.eq_nil_or_concat rest with rfl | ⟨front, last, rfl⟩
        · cases onward
          exact directory_advance directory fun name same => unnamed name (by rw [same]; rfl)
        · refine ih (by simp) (fun name same => unnamed name ?_) onward
          rw [List.concat_eq_append] at same ⊢
          rw [← List.cons_append, List.getLast?_concat]
          rwa [List.getLast?_concat] at same
      · exact absurd rfl (unnamed name)

section Unnamed

variable (plain : disk.Plain) (unnamed : path.Unnamed)

include plain unnamed

theorem Landing.directory_of_unnamed (accepted : path.fault? = none)
    (ended : disk.landing purpose path.steps = .ok landing) :
    disk.get? landing.location = some .directory := by
  unfold Disk.landing linkLimit walk at ended
  exact directory_of_walkWith plain (steps_ne_nil accepted) unnamed ended

theorem read_ne_file (content : ByteArray) : disk.read path ≠ .ok (.file content) := by
  intro found
  unfold read find arrive at found
  cases accepted : path.fault? with
  | some fault =>
      rw [accepted] at found
      cases found
  | none =>
      rw [accepted] at found
      cases ended : disk.landing .look path.steps with
      | error fault =>
          rw [ended] at found
          cases found
      | ok landing =>
          have directory := Landing.directory_of_unnamed plain unnamed accepted ended
          rw [ended] at found
          cases landing with
          | vacant location => cases found
          | entry location =>
              simp only [Landing.location] at directory
              simp [directory] at found

theorem write_ne_ok (content : ByteArray) (after : Disk) : disk.write path content ≠ .ok after := by
  intro wrote
  obtain ⟨accepted, landing, ended, admits, -⟩ := of_write_ok plain wrote
  exact admits.2.2 (Landing.directory_of_unnamed plain unnamed accepted ended)

end Unnamed

/-! ## What is read at a place -/

/-- A walk leads up along the names of the location that it starts from. -/
theorem walkWith_parents (directory : disk.get? location = some .directory) (levels : Nat)
    (rest : List Step) :
    disk.walkWith purpose follow location (List.replicate levels (.along .parent) ++ rest) =
      disk.walkWith purpose follow (location.take (location.length - levels)) rest := by
  induction levels generalizing location with
  | zero => simp
  | succ levels ih =>
      rw [List.replicate_succ, List.cons_append, walkWith, directory]
      dsimp only
      rw [ih (disk.get?_dropLast directory), List.dropLast_eq_take, List.take_take,
        List.length_take]
      congr 2
      omega

section Above

variable {names : List Name} (named : names ≠ [])

include named

/-- The path of a place below the directory that relative paths start from leads up and then along
names. -/
theorem steps_toPath_above (levels : Nat) :
    (Place.mk (.above levels) names).toPath.steps =
      List.replicate levels (.along .parent) ++ along names := by
  have nonempty : (Place.mk (.above levels) names).components ≠ [] := by
    rw [Place.components]
    simpa using fun _ => named
  rw [Place.toPath, Path.steps_ofComponents (Place.inner_components levels names) nonempty,
    Place.components, Place.anchorComponents, List.map_append, List.map_replicate, along,
    List.map_map]
  rfl

theorem landing_toPath_above (levels : Nat) :
    disk.landing purpose (Place.mk (.above levels) names).toPath.steps =
      disk.walkWith purpose (disk.walk purpose 39) disk.here
        (List.replicate levels (.along .parent) ++ along names) := by
  have steps := steps_toPath_above named levels
  have started : (Place.mk (.above levels) names).toPath.steps.head? ≠ some (.along .root) := by
    rw [steps]
    intro root
    have member := List.mem_of_head? root
    simp [along, List.mem_replicate] at member
  rw [landing, if_neg started, steps, linkLimit, walk]

theorem arrive_toPath_above (plain : disk.Plain) (levels : Nat) :
    disk.arrive (Place.mk (.above levels) names).toPath.steps = .ok location ↔
      disk.get? disk.here = some .directory ∧ location = disk.locate ⟨.above levels, names⟩ ∧
        Short names ∧ (disk.get? (disk.locate ⟨.above levels, names⟩)).isSome := by
  have walked := @landing_toPath_above disk .look names named levels
  have ends : disk.get? disk.here = some .directory →
      (disk.landing .look (Place.mk (.above levels) names).toPath.steps = .ok (.entry location) ↔
        location = disk.locate ⟨.above levels, names⟩ ∧ Short names ∧
          (disk.get? (disk.locate ⟨.above levels, names⟩)).isSome) := by
    intro directory
    rw [walked, walkWith_parents directory]
    refine walkWith_entry plain ?_ location
    have whole := List.take_append_drop (disk.here.length - levels) disk.here
    apply isSome_of_append
    rw [whole, directory]
    rfl
  unfold arrive
  constructor
  · intro arrived
    split at arrived
    next other ended =>
      have directory : disk.get? disk.here = some .directory := by
        obtain ⟨first, rest, steps⟩ : ∃ first rest, List.replicate levels (Step.along .parent) ++
            along names = first :: rest :=
          List.exists_cons_of_ne_nil (by simp [along, named])
        rw [walked, steps] at ended
        exact directory_of_walkWith_cons ended
      cases arrived
      exact ⟨directory, (ends directory).mp ended⟩
    · cases arrived
    · cases arrived
  · rintro ⟨directory, lies⟩
    rw [(ends directory).mpr lies]

end Above

/-- The directory that the path of a place starts from is there. -/
def Grounds (disk : Disk) (place : Place) : Prop :=
  place.anchor = .root ∨ disk.get? disk.here = some .directory

/-- What is read at a name is what lies at the place. -/
theorem read_toPath_iff (plain : disk.Plain) {place : Place} (named : place.names ≠ [])
    (entry : Entry) :
    disk.read place.toPath = .ok entry ↔
      place.Reachable ∧ disk.Grounds place ∧ disk.get? (disk.locate place) = some entry := by
  rcases place with ⟨_ | levels, names⟩
  · rw [read_toPath plain (Place.absolute_root names)]
    simp [Grounds, locate]
  · have arrives := fun location => @arrive_toPath_above disk location names named plain levels
    unfold read find Grounds Place.Reachable
    cases (Place.mk (.above levels) names).toPath.fault? with
    | some fault => simp
    | none =>
        simp only [true_and, reduceCtorEq, false_or]
        constructor
        · intro found
          split at found
          · cases found
          next location arrived =>
            obtain ⟨directory, rfl, short, -⟩ := (arrives location).mp arrived
            split at found
            · cases found
            next held =>
              cases found
              exact ⟨short, directory, held⟩
        · rintro ⟨short, directory, held⟩
          rw [(arrives _).mpr ⟨directory, rfl, short, by simp [held]⟩]
          simp only [held]

/-! ## Walks from a directory that is gone -/

section Lost

variable (lost : disk.get? disk.here ≠ some .directory) {components : List Component}

include lost

/-- No walk begins in a directory that is gone. -/
theorem landing_ne_ok (nonempty : steps ≠ []) (relative : .along .root ∉ steps) :
    disk.landing purpose steps ≠ .ok landing := by
  intro ended
  obtain ⟨first, rest, rfl⟩ := List.exists_cons_of_ne_nil nonempty
  have started : (first :: rest).head? ≠ some (.along .root) := by
    intro root
    exact relative (List.mem_of_head? root)
  rw [Disk.landing, if_neg started, linkLimit, walk] at ended
  exact lost (directory_of_walkWith_cons ended)

theorem arrive_ne_ok (nonempty : steps ≠ []) (relative : .along .root ∉ steps) :
    disk.arrive steps ≠ .ok location := by
  unfold arrive
  split
  next ended => exact absurd ended (landing_ne_ok lost nonempty relative)
  · nofun
  · nofun

variable (nonempty : components ≠ []) (relative : .root ∉ components)

include nonempty relative

theorem slot_ne_ok : disk.slot components ≠ .ok location := by
  unfold slot
  split
  next name last =>
    have above : Component.root ∉ components.dropLast :=
      fun member => relative (List.dropLast_subset _ member)
    split
    · nofun
    next arrived =>
      exact absurd arrived (arrive_ne_ok lost (by simp) (by simpa [← List.map_dropLast] using above))
  · exact arrive_ne_ok lost (by simpa using nonempty) (by simpa using relative)

theorem ensureDirectory_ne_ok {after : Disk} : disk.ensureDirectory components ≠ .ok after := by
  have missing : ∀ {entry : Entry} {after : Disk}, disk.add components entry ≠ .ok after := by
    intro entry after
    unfold add
    split
    · nofun
    next slotted => exact absurd slotted (slot_ne_ok lost nonempty relative)
  unfold ensureDirectory
  split
  next added => exact absurd added missing
  · split
    next arrived =>
      exact absurd arrived
        (arrive_ne_ok lost (by simpa using nonempty) (by simpa using relative))
    · nofun

end Lost

/-- Nothing is made along relative paths. -/
theorem ensureDirectories_lost (lost : disk.get? disk.here ≠ some .directory)
    {backwards : List Component} (relative : .root ∉ backwards) :
    (disk.ensureDirectories backwards).2 = disk := by
  induction backwards with
  | nil => rfl
  | cons component above ih =>
      have refused : ∀ after, disk.ensureDirectory (component :: above).reverse ≠ .ok after :=
        fun _ => ensureDirectory_ne_ok lost (by simp) (by rwa [List.mem_reverse])
      rw [ensureDirectories]
      split
      next ensured => exact absurd ensured (refused _)
      · have same := ih fun member => relative (List.mem_cons_of_mem _ member)
        generalize disk.ensureDirectories above = ended at same ⊢
        rcases ended with ⟨fault | _, middle⟩
        · exact same
        · obtain rfl : middle = disk := same
          dsimp only
          split
          next ensured => exact absurd ensured (refused _)
          · rfl
      · rfl

section Lost

variable (lost : disk.get? disk.here ≠ some .directory) (relative : .root ∉ path.components)

include lost relative

theorem makeDirectories_lost : (disk.makeDirectories path).2 = disk := by
  unfold makeDirectories
  split
  · rfl
  · split
    · rfl
    · exact ensureDirectories_lost lost (by rwa [List.mem_reverse])

theorem write_lost (plain : disk.Plain) (content : ByteArray) (after : Disk) :
    disk.write path content ≠ .ok after := by
  intro wrote
  obtain ⟨accepted, landing, ended, -⟩ := of_write_ok plain wrote
  refine landing_ne_ok lost (steps_ne_nil accepted) ?_ ended
  have last : Step.along .root ∉ path.lastStep?.toList := by
    unfold Path.lastStep?
    dsimp only
    split
    · simp
    · split <;> simp
  rw [Path.steps, List.mem_append, not_or]
  exact ⟨by simpa using relative, last⟩

end Lost

end Stencil.Disk
