import Stencil.Proofs.Disk.Paving

/-!
# Disks that develop

Builds change a disk in two ways: a directory is made where there was nothing, and a file is written
where there was no directory.  So directories stay directories and files stay files, and where making
directories has come to an end once, it comes to the same end ever after.
-/

namespace Stencil.Disk

/-- Directories were made and files were written on a disk, only at some locations and with some
contents. -/
structure Develops (made : Location → Prop) (written : Location → ByteArray → Prop)
    (before after : Disk) : Prop where
  get? : ∀ location, after.get? location = before.get? location ∨
    before.get? location = none ∧ after.get? location = some .directory ∧ made location ∨
    ∃ content, before.get? location ≠ some .directory ∧
      after.get? location = some (.file content) ∧ written location content
  here : after.here = before.here

variable {before middle after disk other : Disk} {made : Location → Prop}
  {written : Location → ByteArray → Prop} {location : Location} {names : List Name}

namespace Develops

theorem refl (made : Location → Prop) (written : Location → ByteArray → Prop) (disk : Disk) :
    Develops made written disk disk :=
  ⟨fun _ => .inl rfl, rfl⟩

theorem trans (first : Develops made written before middle)
    (last : Develops made written middle after) : Develops made written before after := by
  refine ⟨fun location => ?_, last.here.trans first.here⟩
  rcases last.get? location with same | ⟨missing, filled, allowed⟩ | ⟨content, free, held, allowed⟩
  · rw [same]
    exact first.get? location
  · rcases first.get? location with same | ⟨-, there, -⟩ | ⟨content, -, there, -⟩
    · exact .inr (.inl ⟨same ▸ missing, filled, allowed⟩)
    · rw [missing] at there
      cases there
    · rw [missing] at there
      cases there
  · right; right
    refine ⟨content, ?_, held, allowed⟩
    rcases first.get? location with same | ⟨missing, -, -⟩ | ⟨_, free, -, -⟩
    · rwa [← same]
    · rw [missing]
      nofun
    · exact free

theorem mono {more : Location → Prop} {others : Location → ByteArray → Prop}
    (develops : Develops made written before after)
    (directories : ∀ location, made location → more location)
    (files : ∀ location content, written location content → others location content) :
    Develops more others before after := by
  refine ⟨fun location => ?_, develops.here⟩
  rcases develops.get? location with same | ⟨missing, filled, allowed⟩ | ⟨content, free, held, allowed⟩
  · exact .inl same
  · exact .inr (.inl ⟨missing, filled, directories _ allowed⟩)
  · exact .inr (.inr ⟨content, free, held, files _ _ allowed⟩)

variable (develops : Develops made written before after)

include develops

theorem plain (plain : before.Plain) : after.Plain := by
  intro location target
  rcases develops.get? location with same | ⟨-, filled, -⟩ | ⟨content, -, held, -⟩
  · rw [same]
    exact plain location target
  · rw [filled]
    nofun
  · rw [held]
    nofun

theorem directory (found : before.get? location = some .directory) :
    after.get? location = some .directory := by
  rcases develops.get? location with same | ⟨missing, -⟩ | ⟨_, free, -⟩
  · rw [same, found]
  · rw [missing] at found
    cases found
  · exact absurd found free

/-- A file stays one, although its content may change. -/
theorem file (found : (before.file? location).isSome) : (after.file? location).isSome := by
  obtain ⟨content, held⟩ := Option.isSome_iff_exists.mp found
  rw [file?_eq_some] at held
  unfold file?
  rcases develops.get? location with same | ⟨missing, -⟩ | ⟨_, -, there, -⟩
  · rw [same, held]
    rfl
  · rw [missing] at held
    cases held
  · rw [there]
    rfl

/-- Where no file may be written, there is the same file as before, if any. -/
theorem file? (spared : ∀ content, ¬written location content) :
    after.file? location = before.file? location := by
  apply file?_of_made
  rcases develops.get? location with same | ⟨missing, filled, -⟩ | ⟨content, -, -, allowed⟩
  · exact .inl same
  · exact .inr ⟨missing, filled⟩
  · exact absurd allowed (spared content)

/-- Where no file may be written, what was there stays. -/
theorem get?_of_there (there : (before.get? location).isSome)
    (spared : ∀ content, ¬written location content) :
    after.get? location = before.get? location := by
  rcases develops.get? location with same | ⟨missing, -⟩ | ⟨content, -, -, allowed⟩
  · exact same
  · rw [missing] at there
    cases there
  · exact absurd allowed (spared content)

/-- Below a directory that was there, directories come to an end where they did before. -/
theorem obstacle? {name : Name}
    (clear : before.obstacle? location name = none →
      before.get? (location ++ [name]) = some .directory) :
    after.obstacle? location name = before.obstacle? location name := by
  unfold Disk.obstacle? at clear ⊢
  cases fits : lengthFault? name with
  | some fault => rfl
  | none =>
      rw [fits, Option.none_or] at clear
      rw [Option.none_or, Option.none_or]
      by_cases found : (before.file? (location ++ [name])).isSome
      · rw [if_pos found, if_pos (develops.file found)]
      · rw [if_neg found] at clear ⊢
        have stays := develops.directory (clear rfl)
        simp [Disk.file?, stays]

/-- Directories that were made as far as possible are not made any further. -/
theorem paving {backwards : List Name}
    (there : before.get? (before.paving backwards).2 = some .directory) :
    after.paving backwards = before.paving backwards := by
  induction backwards with
  | nil => rfl
  | cons name above ih =>
      rw [Disk.paving] at there
      rw [Disk.paving, Disk.paving]
      rcases paved : before.paving above with ⟨fault | _, reached⟩
      · rw [paved] at ih there
        rw [ih there]
      · rw [paved] at ih there
        dsimp only at ih there ⊢
        cases blocked : before.obstacle? reached name with
        | some fault =>
            rw [blocked] at there
            rw [ih there]
            dsimp only
            have never : before.obstacle? reached name ≠ none := by
              rw [blocked]
              exact Option.some_ne_none fault
            rw [develops.obstacle? fun clear => absurd clear never, blocked]
        | none =>
            rw [blocked] at there
            have above := before.get?_dropLast there
            rw [List.dropLast_concat] at above
            rw [ih above]
            dsimp only
            rw [develops.obstacle? fun _ => there, blocked]

theorem pavement (there : before.get? (before.pavement names).2 = some .directory) :
    after.pavement names = before.pavement names := by
  unfold Disk.pavement at there ⊢
  cases refused : (Path.fromRoot names).fault? with
  | some fault => rfl
  | none =>
      rw [refused] at there
      exact develops.paving there

end Develops

/-- Directories are made along short names only. -/
theorem short_paving (backwards : List Name) : Short (disk.paving backwards).2 := by
  induction backwards with
  | nil => nofun
  | cons name above ih =>
      rw [paving]
      generalize disk.paving above = paved at ih
      rcases paved with ⟨fault | _, reached⟩
      · exact ih
      · dsimp only
        split
        · exact ih
        next clear =>
          have fits : lengthFault? name = none := (Option.or_eq_none_iff.mp clear).1
          intro other member
          rcases List.mem_append.mp member with inside | last
          · exact ih other inside
          · rw [List.mem_singleton.mp last]
            refine Nat.le_of_not_lt fun long => ?_
            rw [lengthFault?, if_pos long] at fits
            cases fits

/-- What is paved can be reached. -/
theorem reachable_pavement (names : List Name) :
    Place.Reachable ⟨.root, (disk.pavement names).2⟩ := by
  unfold pavement
  cases refused : (Path.fromRoot names).fault? with
  | some fault =>
      have top : (Place.mk .root []).toPath.fault? = none := by decide
      exact ⟨top, nofun⟩
  | none =>
      refine ⟨?_, short_paving names.reverse⟩
      rw [(Place.absolute_root _).toPath]
      have within := disk.paving_within names.reverse
      rw [List.reverse_reverse] at within
      exact Path.fault?_fromRoot_above refused within

/-- Directories that were made are not made again. -/
theorem Paved.pavement_eq (paved : Paved (disk.pavement names).2 disk other) :
    other.pavement names = disk.pavement names := by
  apply pavement_congr
  intro location _
  by_cases inside : location <+: (disk.pavement names).2
  · rw [file?_of_pavement names location inside, file?, paved.get?, if_pos inside]
  · rw [file?, file?, paved.get?, if_neg inside]

/-- The disk is the same when directories are made that are there. -/
theorem Paved.eq_of_directory (paved : Paved location disk other)
    (there : disk.get? location = some .directory) : other = disk := by
  have still : Paved location disk disk := .refl there
  refine Disk.ext (fun place => ?_) paved.here
  rw [paved.get?, ← still.get?]

/-- Directories that are made along names can be reached. -/
theorem Paved.develops (plain : disk.Plain) (paved : Paved (disk.pavement names).2 disk other) :
    Develops (fun location => Place.Reachable ⟨.root, location⟩ ∧ location <+: names)
      (fun _ _ => False) disk other := by
  refine ⟨fun location => ?_, paved.here⟩
  rw [paved.get?]
  by_cases inside : location <+: (disk.pavement names).2
  · rw [if_pos inside]
    have clear := file?_of_pavement names location inside
    unfold file? at clear
    cases held : disk.get? location with
    | none =>
        exact .inr (.inl ⟨rfl, rfl, reachable_above (reachable_pavement names) inside,
          inside.trans (pavement_within names)⟩)
    | some entry =>
        cases entry with
        | directory => exact .inl rfl
        | file content => simp [held] at clear
        | link target => exact absurd held (plain _ target)
  · rw [if_neg inside]
    exact .inl rfl

/-- A file that is there is not changed when it is written again. -/
theorem put_self {content : ByteArray} (found : disk.get? location = some (.file content)) :
    disk.put location (.file content) = disk := by
  refine Disk.ext (fun other => ?_) (here_put _ _ _)
  rw [get?_put]
  split
  next own => rw [← own.2, found]
  · rfl

/-- A file that was written there and still holds the same is not changed when it is written
again. -/
theorem write_self (plain : disk.Plain) {place : Place} (absolute : place.Absolute)
    (reachable : place.Reachable) {content : ByteArray}
    (found : disk.get? place.names = some (.file content)) :
    disk.write place.toPath content = .ok disk := by
  rw [write, target_self plain absolute reachable found, Except.map, put_self found]

end Stencil.Disk
