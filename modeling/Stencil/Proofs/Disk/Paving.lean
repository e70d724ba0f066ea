import Stencil.Proofs.Disk.Saving

/-!
# Making directories along names

On a disk without links, directories are made along names until a name is too long or belongs to a
file.  Where this happens, and with which fault, depends on nothing but the names and the files on
the way.
-/

namespace Stencil.Disk

/-- Why a location is not a directory. -/
def barrier? (disk : Disk) (location : Location) : Option Fault :=
  match disk.get? location with
  | none => some .notFound
  | some .directory => none
  | some _ => some .notADirectory

/-- Why a name is not looked up. -/
def lengthFault? (name : Name) : Option Fault :=
  if nameLimit < name.text.utf8ByteSize then some .nameTooLong else none

/-- Why a walk along names ends before it looks at the entry with the last one. -/
def hindrance? (disk : Disk) : Location → List Name → Option Fault
  | _, [] => none
  | location, name :: rest =>
      (disk.barrier? location).or
        ((lengthFault? name).or (disk.hindrance? (location ++ [name]) rest))

variable {disk other : Disk} {purpose : Purpose} {names : List Name}

theorem hindrance?_concat (location : Location) (names : List Name) (last : Name) :
    disk.hindrance? location (names ++ [last]) =
      ((disk.hindrance? location names).or (disk.barrier? (location ++ names))).or
        (lengthFault? last) := by
  induction names generalizing location with
  | nil => simp [hindrance?]
  | cons name rest ih => simp [hindrance?, ih, Option.or_assoc]

section Walks

variable {follow : Location → List Step → Except Fault Landing} {rest : List Step}

/-- A walk takes the step to a name, unless it is hindered or there is no entry with the name. -/
theorem walkWith_name (plain : disk.Plain) (unslashed : purpose = .makeFile → rest ≠ [.slash])
    (location : Location) (name : Name) :
    disk.walkWith purpose follow location (.along (.name name) :: rest) =
      match (disk.barrier? location).or (lengthFault? name) with
      | some fault => .error fault
      | none =>
          match disk.get? (location ++ [name]) with
          | none => if rest.isEmpty then .ok (.vacant (location ++ [name])) else .error .notFound
          | some _ => disk.walkWith purpose follow (location ++ [name]) rest := by
  have bare : ¬(purpose = .makeFile ∧ rest = [.slash]) :=
    fun ⟨makes, slash⟩ => unslashed makes slash
  rw [walkWith, barrier?, lengthFault?]
  cases disk.get? location with
  | none => rfl
  | some entry =>
      cases entry with
      | file content => rfl
      | link target => rfl
      | directory =>
          by_cases long : nameLimit < name.text.utf8ByteSize
          · simp only [if_neg bare, if_pos long, Option.none_or]
          · simp only [if_neg bare, if_neg long, Option.none_or]
            split
            next vacant => simp only [vacant]
            next target there => exact absurd there (plain _ target)
            next there => simp only [there]

/-- A walk along names goes on behind them, unless it is hindered or ends at a name without an
entry. -/
theorem walkWith_names (plain : disk.Plain) (unslashed : purpose = .makeFile → rest ≠ [.slash])
    (location : Location) (name : Name) (others : List Name) :
    disk.walkWith purpose follow location (along (name :: others) ++ rest) =
      match disk.hindrance? location (name :: others) with
      | some fault => .error fault
      | none =>
          match disk.get? (location ++ name :: others) with
          | none =>
              if rest.isEmpty then .ok (.vacant (location ++ name :: others)) else .error .notFound
          | some _ => disk.walkWith purpose follow (location ++ name :: others) rest := by
  induction others generalizing location name with
  | nil =>
      rw [hindrance?, hindrance?, Option.or_none]
      exact walkWith_name plain unslashed location name
  | cons second others ih =>
      have onward : purpose = .makeFile → along (second :: others) ++ rest ≠ [.slash] := by
        intro _ slash
        simp [along] at slash
      have walk := ih (location ++ [name]) second
      rw [List.append_assoc, List.singleton_append] at walk
      have step : along (name :: second :: others) ++ rest =
          .along (.name name) :: (along (second :: others) ++ rest) := rfl
      rw [step, walkWith_name plain onward, hindrance?, ← Option.or_assoc, walk]
      cases (disk.barrier? location).or (lengthFault? name) with
      | some fault => rfl
      | none =>
          rw [Option.none_or]
          cases there : disk.get? (location ++ [name]) with
          | none => simp [along, hindrance?, barrier?, there]
          | some entry => rfl

end Walks

/-- A walk from the root along names. -/
theorem landing_names {rest : List Step} (plain : disk.Plain)
    (unslashed : purpose = .makeFile → rest ≠ [.slash]) (names : List Name) :
    disk.landing purpose (.along .root :: (along names ++ rest)) =
      match disk.hindrance? [] names with
      | some fault => .error fault
      | none =>
          match disk.get? names with
          | none => if rest.isEmpty then .ok (.vacant names) else .error .notFound
          | some _ => disk.walkWith purpose (disk.walk purpose 39) names rest := by
  rw [landing_root]
  cases names with
  | nil => simp [along, hindrance?]
  | cons name others => exact walkWith_names plain unslashed [] name others

theorem arrive_names (plain : disk.Plain) (names : List Name) :
    disk.arrive (.along .root :: along names) =
      match disk.hindrance? [] names with
      | some fault => .error fault
      | none => if (disk.get? names).isSome then .ok names else .error .notFound := by
  have walk := @landing_names disk .look [] plain nofun names
  rw [List.append_nil] at walk
  rw [arrive, walk]
  cases disk.hindrance? [] names with
  | some fault => rfl
  | none => cases disk.get? names <;> rfl

/-- A walk over a slash ends in a directory. -/
theorem arrive_names_slash (plain : disk.Plain) (names : List Name) :
    disk.arrive (.along .root :: (along names ++ [.slash])) =
      match (disk.hindrance? [] names).or (disk.barrier? names) with
      | some fault => .error fault
      | none => .ok names := by
  rw [arrive, @landing_names disk .look [.slash] plain (fun making => by cases making) names]
  cases disk.hindrance? [] names with
  | some fault => rfl
  | none =>
      simp only [Option.none_or, barrier?]
      cases held : disk.get? names with
      | none => rfl
      | some entry => cases entry <;> simp [walkWith, held]

theorem slot_names (plain : disk.Plain) (names : List Name) :
    disk.slot (.root :: names.map .name) =
      match disk.hindrance? [] names with
      | some fault => .error fault
      | none => .ok names := by
  rcases List.eq_nil_or_concat names with rfl | ⟨front, last, rfl⟩
  · have root := arrive_names plain []
    rw [get?_root] at root
    exact root
  · have components : Component.root :: (front ++ [last]).map .name =
        (.root :: front.map .name) ++ [.name last] := by simp
    have steps : (Component.root :: front.map .name).map .along ++ [Step.slash] =
        .along .root :: (along front ++ [.slash]) := by
      simp [along, Function.comp_def]
    rw [List.concat_eq_append, slot, components, List.getLast?_concat, List.dropLast_concat, steps,
      arrive_names_slash plain, hindrance?_concat, List.nil_append]
    dsimp only
    cases (disk.hindrance? [] front).or (disk.barrier? front) with
    | some fault => rfl
    | none =>
        dsimp only
        rw [Option.none_or, lengthFault?]
        by_cases long : nameLimit < last.text.utf8ByteSize
        · simp only [if_pos long]
        · simp only [if_neg long]

/-- A directory is made where nothing is, and kept where it is. -/
theorem ensureDirectory_names (plain : disk.Plain) (names : List Name) :
    disk.ensureDirectory (.root :: names.map .name) =
      match disk.hindrance? [] names with
      | some fault => .error fault
      | none =>
          match disk.get? names with
          | none => .ok (disk.put names .directory)
          | some .directory => .ok disk
          | some _ => .error .alreadyExists := by
  have steps : (Component.root :: names.map .name).map Step.along = .along .root :: along names := by
    simp [along, Function.comp_def]
  rw [ensureDirectory, add, slot_names plain, steps, arrive_names plain]
  cases disk.hindrance? [] names with
  | some fault => rfl
  | none =>
      cases held : disk.get? names with
      | none => simp [held]
      | some entry => cases entry <;> simp [held]

/-- A fault at a name is another one for the names below it. -/
def Fault.below : Fault → Fault
  | alreadyExists => notADirectory
  | fault => fault

@[simp]
theorem Fault.below_below (fault : Fault) : fault.below.below = fault.below := by
  cases fault <;> rfl

/-- Why a directory with a name is neither made nor there. -/
def obstacle? (disk : Disk) (location : Location) (name : Name) : Option Fault :=
  (lengthFault? name).or
    (if (disk.file? (location ++ [name])).isSome then some .alreadyExists else none)

/-- What comes of making directories along names, given from the last one to the first: the outcome,
and the location down to which there are directories then. -/
def paving (disk : Disk) : (backwards : List Name) → Except Fault Unit × Location
  | [] => (.ok (), [])
  | name :: above =>
      match disk.paving above with
      | (.error fault, location) => (.error fault.below, location)
      | (.ok _, location) =>
          match disk.obstacle? location name with
          | some fault => (.error fault, location)
          | none => (.ok (), location ++ [name])

/-- A disk has directories down to a location, and is the same as before elsewhere. -/
structure Paved (location : Location) (before after : Disk) : Prop where
  get? : ∀ other, after.get? other =
    if other <+: location then some .directory else before.get? other
  here : after.here = before.here

namespace Paved

variable {location : Location} {name : Name}

theorem refl (directory : disk.get? location = some .directory) : Paved location disk disk := by
  refine ⟨fun place => ?_, rfl⟩
  split
  next above =>
    rcases above with ⟨rest, rfl⟩
    by_cases last : rest = []
    · simpa [last] using directory
    · exact get?_of_append last directory
  · rfl

theorem directory (paved : Paved location disk other) : other.get? location = some .directory := by
  rw [paved.get?, if_pos (List.prefix_refl _)]

theorem plain (paved : Paved location disk other) (plain : disk.Plain) : other.Plain := by
  intro place target
  rw [paved.get?]
  split
  · nofun
  · exact plain place target

theorem trans {further : Location} {last : Disk} (paved : Paved location disk other)
    (onward : Paved further other last) (within : location <+: further) :
    Paved further disk last := by
  refine ⟨fun place => ?_, onward.here.trans paved.here⟩
  rw [onward.get?, paved.get?]
  by_cases above : place <+: further
  · rw [if_pos above, if_pos above]
  · rw [if_neg above, if_neg above, if_neg fun before => above (before.trans within)]

/-- One more directory is made. -/
theorem put (paved : Paved location disk other) (vacant : other.get? (location ++ [name]) = none) :
    Paved (location ++ [name]) disk (other.put (location ++ [name]) .directory) := by
  have admits : other.Admits (location ++ [name]) :=
    ⟨by simp, by simpa using paved.directory, by simp [vacant]⟩
  constructor
  · intro place
    rw [get?_put, paved.get?]
    by_cases same : place = location ++ [name]
    · rw [if_pos ⟨admits, same.symm⟩, if_pos (same ▸ List.prefix_refl _)]
    · rw [if_neg fun put => same put.2.symm]
      simp only [List.prefix_concat_iff, same, false_or]
  · rw [here_put, paved.here]

end Paved

/-- Beyond the directories there are the same obstacles as before. -/
theorem Paved.obstacle? {location : Location} (paved : Paved location disk other) (name : Name) :
    other.obstacle? location name = disk.obstacle? location name := by
  have beyond : ¬location ++ [name] <+: location := by
    intro within
    have shorter := within.length_le
    simp only [List.length_append, List.length_singleton] at shorter
    omega
  rw [Disk.obstacle?, Disk.obstacle?, file?, file?, paved.get?, if_neg beyond]

/-- Below what is missing there is nothing. -/
theorem get?_concat_eq_none {location : Location} (name : Name)
    (missing : disk.get? location = none) : disk.get? (location ++ [name]) = none := by
  cases held : disk.get? (location ++ [name]) with
  | none => rfl
  | some entry =>
      have above := disk.get?_dropLast held
      rw [List.dropLast_concat, missing] at above
      cases above

theorem obstacle?_of_missing {location : Location} (name : Name)
    (missing : disk.get? location = none) : disk.obstacle? location name = lengthFault? name := by
  simp [obstacle?, file?, get?_concat_eq_none name missing]

/-- An obstacle at a name is in the way of what lies below it, and so is a missing directory. -/
theorem lengthFault?_or_barrier? (plain : disk.Plain) (location : Location) (name : Name) :
    (lengthFault? name).or (disk.barrier? (location ++ [name])) =
      match disk.obstacle? location name with
      | some fault => some fault.below
      | none => if disk.get? (location ++ [name]) = none then some .notFound else none := by
  rw [obstacle?, barrier?, file?]
  by_cases long : nameLimit < name.text.utf8ByteSize
  · simp [lengthFault?, long, Fault.below]
  · simp only [lengthFault?, long, if_false, Option.none_or]
    cases held : disk.get? (location ++ [name]) with
    | none => rfl
    | some entry =>
        cases entry with
        | directory => rfl
        | file content => rfl
        | link target => exact absurd held (plain _ target)

/-- On the way that is paved there are no files. -/
theorem file?_of_paving (backwards : List Name) :
    ∀ location, location <+: (disk.paving backwards).2 → disk.file? location = none := by
  induction backwards with
  | nil =>
      intro location above
      obtain rfl := List.prefix_nil.mp above
      simp [file?]
  | cons name above ih =>
      rw [paving]
      generalize disk.paving above = paved at ih
      rcases paved with ⟨fault | _, reached⟩
      · exact ih
      · dsimp only
        split
        · exact ih
        next free =>
          intro location before
          rcases List.prefix_concat_iff.mp before with rfl | before
          · simpa using (Option.or_eq_none_iff.mp free).2
          · exact ih location before

theorem paving_ok {backwards : List Name} {location : Location}
    (paved : disk.paving backwards = (.ok (), location)) : location = backwards.reverse := by
  induction backwards generalizing location with
  | nil => exact (Prod.mk.inj paved).2.symm
  | cons name above ih =>
      rw [paving] at paved
      rcases before : disk.paving above with ⟨fault | _, reached⟩
      · rw [before] at paved
        cases paved
      · rw [before] at paved
        dsimp only at paved
        split at paved
        · cases paved
        · rw [List.reverse_cons, ← ih before]
          exact (Prod.mk.inj paved).2.symm

theorem paving_within (backwards : List Name) :
    (disk.paving backwards).2 <+: backwards.reverse := by
  induction backwards with
  | nil => exact List.nil_prefix
  | cons name above ih =>
      rw [List.reverse_cons, paving]
      have further := ih.trans (List.prefix_append above.reverse [name])
      rcases paved : disk.paving above with ⟨fault | _, reached⟩
      · rw [paved] at further
        exact further
      · obtain rfl := paving_ok paved
        rw [paved] at further
        dsimp only at further ⊢
        split
        · exact further
        · exact List.prefix_refl _

/-- Where anything is at the end of what is paved, it is a directory. -/
theorem directory_of_paving (plain : disk.Plain) (backwards : List Name)
    (there : disk.get? (disk.paving backwards).2 ≠ none) :
    disk.get? (disk.paving backwards).2 = some .directory := by
  have clear := file?_of_paving backwards _ (List.prefix_refl (disk.paving backwards).2)
  unfold file? at clear
  cases held : disk.get? (disk.paving backwards).2 with
  | none => exact absurd held there
  | some entry =>
      cases entry with
      | directory => rfl
      | file content => simp [held] at clear
      | link target => exact absurd held (plain _ target)

theorem of_obstacle? {location : Location} {name : Name} {fault : Fault}
    (obstacle : disk.obstacle? location name = some fault) :
    fault ≠ .notFound ∧ (fault = .alreadyExists → disk.get? location ≠ none) := by
  by_cases missing : disk.get? location = none
  · rw [obstacle?_of_missing name missing, lengthFault?] at obstacle
    split at obstacle
    · cases obstacle
      exact ⟨nofun, nofun⟩
    · cases obstacle
  · refine ⟨?_, fun _ => missing⟩
    rintro rfl
    unfold obstacle? lengthFault? at obstacle
    split at obstacle <;> split at obstacle <;> cases obstacle

/-- Nothing that paving fails with is about something missing, and a file on the way is found in a
directory. -/
theorem paving_error {backwards : List Name} {fault : Fault} {location : Location}
    (paved : disk.paving backwards = (.error fault, location)) :
    fault ≠ .notFound ∧ (fault = .alreadyExists → disk.get? location ≠ none) := by
  induction backwards generalizing fault location with
  | nil => cases paved
  | cons name above ih =>
      rw [paving] at paved
      rcases before : disk.paving above with ⟨first | _, reached⟩
      · rw [before] at paved
        cases paved
        have found := (ih before).1
        cases first <;> simp_all [Fault.below]
      · rw [before] at paved
        dsimp only at paved
        split at paved
        next obstacle =>
          cases paved
          exact of_obstacle? obstacle
        · cases paved

/-- Paving depends on nothing but the files on the way. -/
theorem paving_congr (backwards : List Name)
    (same : ∀ location, location <+: backwards.reverse →
      other.file? location = disk.file? location) :
    other.paving backwards = disk.paving backwards := by
  induction backwards with
  | nil => rfl
  | cons name above ih =>
      rw [List.reverse_cons] at same
      have before := ih fun location within => same location (within.trans (List.prefix_append _ _))
      rw [paving, paving, before]
      rcases paved : disk.paving above with ⟨fault | _, reached⟩
      · rfl
      · obtain rfl := paving_ok paved
        dsimp only
        rw [obstacle?, obstacle?, same _ (List.prefix_refl _)]

/-- A walk into the directory at names meets what paving meets, unless something is missing before
that. -/
theorem hindrance?_or_barrier? (plain : disk.Plain) (backwards : List Name) :
    (disk.hindrance? [] backwards.reverse).or (disk.barrier? backwards.reverse) =
      if disk.get? (disk.paving backwards).2 = none then some .notFound
      else
        match (disk.paving backwards).1 with
        | .error fault => some fault.below
        | .ok _ => none := by
  induction backwards with
  | nil => simp [hindrance?, barrier?, paving]
  | cons name above ih =>
      rw [List.reverse_cons, hindrance?_concat, List.nil_append, ih, Option.or_assoc,
        lengthFault?_or_barrier? plain, paving]
      rcases paved : disk.paving above with ⟨fault | _, reached⟩
      · dsimp only
        split
        · rfl
        · simp
      · obtain rfl := paving_ok paved
        dsimp only
        have below := @get?_concat_eq_none disk above.reverse name
        rcases Option.eq_none_or_eq_some (disk.obstacle? above.reverse name) with
          free | ⟨fault, blocked⟩
        · by_cases missing : disk.get? above.reverse = none
          · simp [free, missing, below missing]
          · simp [free, missing]
        · by_cases missing : disk.get? above.reverse = none
          · simp [blocked, missing]
          · simp [blocked, missing]

theorem hindrance?_of_paving (plain : disk.Plain) (name : Name) (above : List Name) :
    disk.hindrance? [] (name :: above).reverse =
      if disk.get? (disk.paving above).2 = none then some .notFound
      else
        match (disk.paving above).1 with
        | .error fault => some fault.below
        | .ok _ => lengthFault? name := by
  rw [List.reverse_cons, hindrance?_concat, List.nil_append, hindrance?_or_barrier? plain]
  split
  · rfl
  · cases (disk.paving above).1 <;> rfl

/-- In a directory, a directory with a name is there in the end unless there is an obstacle. -/
theorem ensureDirectory_concat (plain : disk.Plain) {location : Location} {name : Name}
    (directory : disk.get? location = some .directory)
    (free : disk.hindrance? [] (location ++ [name]) = lengthFault? name) :
    (∃ fault, disk.obstacle? location name = some fault ∧
        disk.ensureDirectory (.root :: (location ++ [name]).map .name) = .error fault) ∨
      disk.obstacle? location name = none ∧ ∃ after,
        disk.ensureDirectory (.root :: (location ++ [name]).map .name) = .ok after ∧
          Paved (location ++ [name]) disk after := by
  rw [ensureDirectory_names plain, free, obstacle?, file?]
  cases lengthFault? name with
  | some fault => exact .inl ⟨fault, rfl, rfl⟩
  | none =>
      cases held : disk.get? (location ++ [name]) with
      | none => exact .inr ⟨rfl, _, rfl, (Paved.refl directory).put held⟩
      | some entry =>
          cases entry with
          | directory => exact .inr ⟨rfl, disk, rfl, .refl held⟩
          | file content => exact .inl ⟨_, rfl, rfl⟩
          | link target => exact absurd held (plain _ target)

/-- In a directory that is paved down to, only the length of a name hinders a walk to it. -/
theorem hindrance?_of_directory (plain : disk.Plain) {above : List Name}
    (reached : disk.paving above = (.ok (), above.reverse))
    (directory : disk.get? above.reverse = some .directory) (name : Name) :
    disk.hindrance? [] (above.reverse ++ [name]) = lengthFault? name := by
  rw [← List.reverse_cons, hindrance?_of_paving plain, reached]
  simp [directory]

theorem Paved.paving {above : List Name} (paved : Paved above.reverse disk other)
    (reached : disk.paving above = (.ok (), above.reverse)) :
    other.paving above = (.ok (), above.reverse) := by
  rw [← reached]
  apply paving_congr
  intro location within
  have clear := file?_of_paving above location (by rwa [reached])
  rw [clear, file?, paved.get?, if_pos within]

/-- Directories are made along names as far as the names and the files on the way let them. -/
theorem ensureDirectories_names (plain : disk.Plain) (backwards : List Name) :
    (disk.ensureDirectories (backwards.map .name ++ [.root])).1 = (disk.paving backwards).1 ∧
      Paved (disk.paving backwards).2 disk
        (disk.ensureDirectories (backwards.map .name ++ [.root])).2 := by
  induction backwards with
  | nil =>
      have made := ensureDirectory_names plain []
      simp only [hindrance?, get?_root, List.map_nil] at made
      rw [List.map_nil, List.nil_append, ensureDirectories, List.reverse_singleton, made]
      exact ⟨rfl, .refl disk.get?_root⟩
  | cons name above ih =>
      have forwards : (Component.name name :: (above.map .name ++ [.root])).reverse =
          .root :: (above.reverse ++ [name]).map .name := by simp
      have directory := directory_of_paving plain above
      have first := ensureDirectory_names plain (above.reverse ++ [name])
      rw [← List.reverse_cons, hindrance?_of_paving plain, List.reverse_cons] at first
      rw [List.map_cons, List.cons_append, ensureDirectories, forwards, paving]
      generalize disk.ensureDirectories (above.map .name ++ [.root]) = made at ih ⊢
      rcases made with ⟨outcome, after⟩
      rcases paved : disk.paving above with ⟨fault | _, reached⟩
      -- The directories above cannot all be made.  They are tried only when one of them is missing.
      · rw [paved] at ih directory first
        obtain ⟨rfl, ih⟩ := ih
        obtain ⟨found, inside⟩ := paving_error paved
        dsimp only at directory first ⊢
        by_cases missing : disk.get? reached = none
        · have same : fault.below = fault := by
            cases fault <;> first | rfl | exact absurd missing (inside rfl)
          rw [if_pos missing] at first
          rw [first, same]
          exact ⟨rfl, ih⟩
        · rw [if_neg missing] at first
          rw [first]
          have kept : Paved reached disk disk := .refl (directory missing)
          cases fault <;> first | exact absurd rfl found | exact ⟨rfl, kept⟩
      -- They are there, or are made.  The last name decides.
      · obtain rfl := paving_ok paved
        rw [paved] at ih directory first
        obtain ⟨rfl, ih⟩ := ih
        dsimp only at ih directory first ⊢
        by_cases missing : disk.get? above.reverse = none
        · have free := hindrance?_of_directory (ih.plain plain) (ih.paving paved) ih.directory name
          have same := ih.obstacle? name
          rw [if_pos missing] at first
          rw [first]
          dsimp only
          rcases ensureDirectory_concat (ih.plain plain) ih.directory free with
            ⟨fault, blocked, failed⟩ | ⟨clear, last, made, further⟩
          · rw [← same, blocked, failed]
            exact ⟨rfl, ih⟩
          · rw [← same, clear, made]
            exact ⟨rfl, ih.trans further (List.prefix_append _ _)⟩
        · have here := directory missing
          have free := hindrance?_of_directory plain paved here name
          rcases ensureDirectory_concat plain here free with
            ⟨fault, blocked, failed⟩ | ⟨clear, last, made, further⟩
          · rw [blocked, failed]
            have found := (of_obstacle? blocked).1
            cases fault <;> first | exact absurd rfl found | exact ⟨rfl, .refl here⟩
          · rw [clear, made]
            exact ⟨rfl, further⟩

/-- What comes of making the directories at the path along names. -/
def pavement (disk : Disk) (names : List Name) : Except Fault Unit × Location :=
  match (Path.fromRoot names).fault? with
  | some fault => (.error fault, [])
  | none => disk.paving names.reverse

theorem pavement_congr (names : List Name)
    (same : ∀ location, location <+: names → other.file? location = disk.file? location) :
    other.pavement names = disk.pavement names := by
  unfold pavement
  rw [paving_congr names.reverse (by simpa using same)]

theorem pavement_ok (paved : (disk.pavement names).1 = .ok ()) :
    disk.pavement names = (.ok (), names) ∧ disk.paving names.reverse = (.ok (), names) := by
  unfold pavement at paved ⊢
  split at paved
  · cases paved
  · have whole : disk.paving names.reverse = (.ok (), (disk.paving names.reverse).2) :=
      Prod.ext paved rfl
    rw [paving_ok whole, List.reverse_reverse] at whole
    exact ⟨whole, whole⟩

/-- In a directory that is paved down to, only the length of a name hinders a walk to it. -/
theorem hindrance?_of_pavement (plain : disk.Plain) (paved : (disk.pavement names).1 = .ok ())
    (directory : disk.get? names = some .directory) (last : Name) :
    disk.hindrance? [] (names ++ [last]) = lengthFault? last := by
  have reached := (pavement_ok paved).2
  have free := @hindrance?_of_directory disk plain names.reverse
  rw [List.reverse_reverse] at free
  exact free reached directory last

/-- What was paved can be paved again. -/
theorem Paved.pavement (paved : Paved names disk other)
    (reached : (disk.pavement names).1 = .ok ()) : (other.pavement names).1 = .ok () := by
  have clear := @file?_of_paving disk names.reverse
  rw [(pavement_ok reached).2] at clear
  rw [pavement_congr names, reached]
  intro location within
  rw [clear location within, file?, paved.get?, if_pos within]

/-- What is paved is part of the way. -/
theorem pavement_within (names : List Name) : (disk.pavement names).2 <+: names := by
  unfold pavement
  split
  · exact List.nil_prefix
  · simpa using paving_within names.reverse

theorem file?_of_pavement (names : List Name) :
    ∀ location, location <+: (disk.pavement names).2 → disk.file? location = none := by
  intro location within
  unfold pavement at within
  split at within
  · obtain rfl := List.prefix_nil.mp within
    simp [file?]
  · exact file?_of_paving names.reverse location within

/-- The directories at a path are made as far as the path is paved. -/
theorem makeDirectories_fromRoot (plain : disk.Plain) (names : List Name) :
    (disk.makeDirectories (.fromRoot names)).1 = (disk.pavement names).1 ∧
      Paved (disk.pavement names).2 disk (disk.makeDirectories (.fromRoot names)).2 := by
  have filled : (Path.fromRoot names).text ≠ "" := by
    intro empty
    have chars := Path.toList_fromRoot names
    simp [empty] at chars
  rw [makeDirectories, if_neg filled, pavement]
  cases (Path.fromRoot names).fault? with
  | some fault => exact ⟨rfl, .refl disk.get?_root⟩
  | none =>
      have backwards : (Path.fromRoot names).components.reverse =
          names.reverse.map .name ++ [.root] := by simp
      rw [backwards]
      exact ensureDirectories_names plain names.reverse

/-- A file may be put into a directory that was paved down to, unless its path is refused, its name
is too long or a directory has its name. -/
theorem target_concat (plain : disk.Plain) (paved : (disk.pavement names).1 = .ok ())
    (directory : disk.get? names = some .directory) {path : Path} {last : Name}
    (steps : path.steps = .along .root :: along (names ++ [last])) :
    disk.target path =
      match path.fault?.or (lengthFault? last) with
      | some fault => .error fault
      | none =>
          if disk.get? (names ++ [last]) = some .directory then .error .isADirectory
          else .ok (names ++ [last]) := by
  have walk := @landing_names disk .makeFile [] plain nofun (names ++ [last])
  rw [List.append_nil, hindrance?_of_pavement plain paved directory] at walk
  rw [target, steps, walk]
  cases path.fault? with
  | some fault => rfl
  | none =>
      rw [Option.none_or]
      cases lengthFault? last with
      | some fault => rfl
      | none =>
          cases held : disk.get? (names ++ [last]) with
          | none => rfl
          | some entry =>
              dsimp only [walkWith]
              rw [held]

/-- Why a path to a directory is no path to a file. -/
def refusal (disk : Disk) (path : Path) (above : List Name) : Fault :=
  ((path.fault?.or (disk.hindrance? [] above)).or (disk.barrier? above)).getD .isADirectory

section Refused

variable (plain : disk.Plain) {path : Path}

include plain

/-- No file is written over the directory above. -/
theorem target_of_parent (steps : path.steps = .along .root :: (along names ++ [.along .parent])) :
    disk.target path = .error (disk.refusal path names) := by
  rw [target, steps, landing_names plain (fun _ => by simp), refusal]
  cases path.fault? with
  | some fault => rfl
  | none =>
      cases disk.hindrance? [] names with
      | some fault => rfl
      | none =>
          unfold barrier?
          cases held : disk.get? names with
          | none => rfl
          | some entry =>
              cases entry with
              | directory =>
                  have above : disk.get? names.dropLast = some .directory := disk.get?_dropLast held
                  simp [walkWith, held, above]
              | file content => simp [walkWith, held]
              | link target => exact absurd held (plain _ target)

/-- No file is written at a path that ends with a slash. -/
theorem target_of_slash (steps : path.steps = .along .root :: (along names ++ [.slash])) :
    disk.target path = .error (disk.refusal path names.dropLast) := by
  rw [target, steps, refusal]
  rcases List.eq_nil_or_concat names with rfl | ⟨front, last, rfl⟩
  · cases path.fault? with
    | some fault => rfl
    | none => simp [along, landing_root, walkWith, hindrance?, barrier?]
  · have split : along (front.concat last) ++ [Step.slash] =
        along front ++ [.along (.name last), .slash] := by simp [along]
    rw [split, landing_names plain (fun _ => by simp), List.concat_eq_append, List.dropLast_concat]
    cases path.fault? with
    | some fault => rfl
    | none =>
        cases disk.hindrance? [] front with
        | some fault => rfl
        | none =>
            unfold barrier?
            cases held : disk.get? front with
            | none => rfl
            | some entry =>
                cases entry with
                | directory => simp [walkWith, held]
                | file content => simp [walkWith, held]
                | link target => exact absurd held (plain _ target)

/-- In a directory that was paved down to, only the path itself can be at fault. -/
theorem refusal_of_pavement (paved : (disk.pavement names).1 = .ok ())
    (directory : disk.get? names = some .directory) :
    disk.refusal path names = path.fault?.getD .isADirectory := by
  have met := hindrance?_or_barrier? plain names.reverse
  rw [(pavement_ok paved).2, List.reverse_reverse] at met
  simp only [directory, reduceCtorEq, if_false] at met
  rw [refusal, Option.or_assoc, met, Option.or_none]

end Refused

end Stencil.Disk
