import Stencil.Proofs.Disk.Arrivals
import Stencil.Proofs.Text.Boundaries

/-!
# Canonical paths

The canonical path of a path is worked out on the part of the disk that lies near the root.  A walk
that ends there ends at the same entry of the whole disk, so paths with the same canonical path lead to
the same directory.  The reverse is true of the paths that can be worked out.  On a disk without links
these are all the absolute ones.
-/

namespace Stencil

/-- A name of any length. -/
def Name.row (more : Nat) : Name where
  text := String.ofList ('n' :: .replicate more 'n')
  ne_empty := by simp [← String.toList_inj]
  ne_current := by simp [← String.toList_inj]
  ne_parent := by simp [← String.toList_inj]
  no_slash := by simp

theorem utf8ByteSize_replicate (count : Nat) :
    (String.ofList (.replicate count 'n')).utf8ByteSize = count := by
  induction count with
  | zero => rfl
  | succ count ih =>
      have one : (String.ofList ['n']).utf8ByteSize = 1 := by decide
      rw [List.replicate_succ, ← List.singleton_append, String.ofList_append,
        String.utf8ByteSize_append, ih, one, Nat.add_comm]

theorem Name.utf8ByteSize_row (more : Nat) : (row more).text.utf8ByteSize = more + 1 :=
  utf8ByteSize_replicate (more + 1)

theorem Name.clean_row (more : Nat) : '\x00' ∉ (row more).text.toList := by
  simp [row]

namespace Disk

variable {disk : Disk} {purpose : Purpose} {path other : Path} {location arrived : Location}
  {steps : List Step} {names : List Name} {entry : Entry}
  {follow followAll : Location → List Step → Except Fault Landing}

theorem length_bytesOf_cons (c : Char) (rest : List Char) :
    (Text.bytesOf (c :: rest)).length =
      (Text.bytesOf [c]).length + (Text.bytesOf rest).length := by
  rw [← List.singleton_append, Text.bytesOf_append, List.length_append]

/-- The number of bytes of pieces, each with a slash before it. -/
def sizeOfPieces : List (List Char) → Nat
  | [] => 0
  | piece :: others => (Text.bytesOf piece).length + 1 + sizeOfPieces others

theorem sizeOfPieces_piecesOf (location : Location) :
    sizeOfPieces (Path.piecesOf location) = location.size := by
  induction location with
  | nil => rfl
  | cons name rest ih =>
      rw [Path.piecesOf_cons, sizeOfPieces, ih, Text.length_bytesOf]
      rfl

/-- A text behind a slash is as long as its pieces, each with a slash before it. -/
theorem length_bytesOf_slash (chars : List Char) :
    (Text.bytesOf ('/' :: chars)).length = sizeOfPieces (Path.pieces chars) := by
  have one : (Text.bytesOf ['/']).length = 1 := by decide
  rw [length_bytesOf_cons, one]
  induction chars with
  | nil => rfl
  | cons c rest ih =>
      rw [Path.pieces]
      split
      next slash =>
        rw [sizeOfPieces, ← ih, length_bytesOf_cons, slash, one, Text.bytesOf_nil]
        rfl
      next =>
        obtain ⟨piece, others, split⟩ := List.exists_cons_of_ne_nil (Path.pieces_ne_nil rest)
        rw [split] at ih ⊢
        rw [sizeOfPieces] at ih ⊢
        rw [length_bytesOf_cons c piece, length_bytesOf_cons c rest]
        omega

/-- The size of a location is the length of the path that leads straight to it. -/
theorem Location.utf8ByteSize_toPath (below : location ≠ []) :
    (Location.toPath location).text.utf8ByteSize = Location.size location := by
  have written : (Location.toPath location).text.toList =
      '/' :: Path.joined (Path.piecesOf location) := Path.toList_fromRoot location
  rw [← Text.length_bytesOf, written, length_bytesOf_slash, Path.pieces_joined below,
    sizeOfPieces_piecesOf]

theorem get?_of_near (held : disk.near.get? location = some entry) :
    disk.get? location = some entry := by
  rw [get?_near] at held
  split at held
  · exact held
  · cases held

/-- What lies near the root, and is followed there along links, is come to on the whole disk. -/
theorem walkWith_of_near
    (carries : ∀ {start rest}, (disk.near.get? start).isSome →
      follow start rest = .ok (.entry arrived) →
        followAll start rest = .ok (.entry arrived) ∧ (disk.near.get? arrived).isSome)
    (start : (disk.near.get? location).isSome)
    (ended : disk.near.walkWith purpose follow location steps = .ok (.entry arrived)) :
    disk.walkWith purpose followAll location steps = .ok (.entry arrived) ∧
      (disk.near.get? arrived).isSome := by
  induction steps generalizing location with
  | nil =>
      cases ended
      exact ⟨rfl, start⟩
  | cons step rest ih =>
      have directory := directory_of_walkWith_cons ended
      rw [walkWith.eq_def] at ended ⊢
      simp only [directory, get?_of_near directory] at ended ⊢
      cases step with
      | slash => exact ih start ended
      | along component =>
          cases component with
          | root => exact ih (by rw [get?_root]; rfl) ended
          | current => exact ih start ended
          | parent => exact ih (by rw [disk.near.get?_dropLast directory]; rfl) ended
          | name name =>
              dsimp only at ended ⊢
              split at ended
              · cases ended
              next unslashed =>
                rw [if_neg unslashed]
                split at ended
                · cases ended
                next fits =>
                  rw [if_neg fits]
                  cases held : disk.near.get? (location ++ [name]) with
                  | none =>
                      rw [held] at ended
                      dsimp only at ended
                      split at ended <;> cases ended
                  | some entry =>
                      rw [held] at ended
                      rw [get?_of_near held]
                      cases entry with
                      | link target => exact carries (by rw [directory]; rfl) ended
                      | file | directory => exact ih (by rw [held]; rfl) ended

theorem walk_of_near {links : Nat} (start : (disk.near.get? location).isSome)
    (ended : disk.near.walk purpose links location steps = .ok (.entry arrived)) :
    disk.walk purpose links location steps = .ok (.entry arrived) ∧
      (disk.near.get? arrived).isSome := by
  induction links generalizing location steps with
  | zero => exact walkWith_of_near (fun _ failed => by cases failed) start ended
  | succ links ih => exact walkWith_of_near ih start ended

/-- A path leads to the entry at which a walk along it ends. -/
theorem find_eq_ok : disk.find path = .ok location ↔
    path.fault? = none ∧ disk.landing .look path.steps = .ok (.entry location) := by
  unfold find arrive
  cases path.fault? with
  | some fault => simp
  | none =>
      dsimp only
      split <;> simp_all

/-- What is found on the part near the root is found on the whole disk. -/
theorem find_of_near (found : disk.near.find path = .ok location) :
    disk.find path = .ok location ∧ (disk.near.get? location).isSome := by
  obtain ⟨accepted, landed⟩ := find_eq_ok.mp found
  rw [find_eq_ok, and_assoc]
  refine ⟨accepted, walk_of_near ?_ landed⟩
  obtain ⟨step, rest, cons⟩ := List.exists_cons_of_ne_nil (steps_ne_nil accepted)
  rw [landing, cons, linkLimit, walk] at landed
  rw [cons]
  exact Option.isSome_of_mem (directory_of_walkWith_cons landed)

/-- A walk to look goes on along the path of a link. -/
theorem walkWith_link {name : Name} {target : Path} {rest : List Step}
    (directory : disk.get? location = some .directory) (fits : name.text.utf8ByteSize ≤ nameLimit)
    (there : disk.get? (location ++ [name]) = some (.link target)) :
    disk.walkWith .look follow location (.along (.name name) :: rest) =
      follow location (target.steps ++ rest) := by
  rw [walkWith, directory]
  simp only [reduceCtorEq, false_and, if_false, if_neg (Nat.not_lt.mpr fits), there]

/-- Along names that lead to a directory near the root, both walks see the same. -/
theorem walkWith_near_along (held : disk.near.get? (location ++ names) = some .directory) :
    disk.near.walkWith .look follow location (along names) =
      disk.walkWith .look followAll location (along names) := by
  induction names generalizing location with
  | nil => rfl
  | cons name rest ih =>
      have above := get?_of_append (List.cons_ne_nil name rest) held
      have onward : disk.near.get? ((location ++ [name]) ++ rest) = some .directory := by
        simpa using held
      have next : disk.near.get? (location ++ [name]) = some .directory := by
        by_cases last : rest = []
        · rwa [last, List.append_nil] at onward
        · exact get?_of_append last onward
      have step : along (name :: rest) = .along (.name name) :: along rest := rfl
      rw [step, walkWith, walkWith, above, get?_of_near above, next, get?_of_near next]
      simp only [ih onward]

/-- The path straight to a directory near the root leads there, if it leads anywhere. -/
theorem near_find_toPath (held : disk.near.get? location = some .directory) :
    disk.near.find location.toPath = disk.find location.toPath := by
  have same : Location.toPath location = .fromRoot location := rfl
  have lands : disk.near.landing .look (Path.fromRoot location).steps =
      disk.landing .look (Path.fromRoot location).steps := by
    by_cases top : location = []
    · rw [top, Path.steps_fromRoot_nil, landing_root, landing_root]
      simp [walkWith]
    · rw [Path.steps_fromRoot top, landing_root, landing_root]
      exact walkWith_near_along held
  rw [same, find, find, arrive, arrive, lands]

theorem Location.toPath_inj {first second : Location} (same : first.toPath = second.toPath) :
    first = second := by
  have places : Place.ofPath first.toPath = Place.ofPath second.toPath := by rw [same]
  rw [Location.toPath, Location.toPath] at places
  have read := (Place.ofPath_fromRoot first).symm.trans (places.trans (Place.ofPath_fromRoot second))
  exact congrArg Place.names read

/-- The canonical path of a path can be worked out. -/
def Canonicalizes (disk : Disk) (path : Path) : Prop :=
  ∃ location, disk.near.find path = .ok location

/-- Whatever leads anywhere can be worked out when nothing on the disk lies too far from the root. -/
theorem canonicalizes_of_close
    (close : ∀ found ∈ disk.entries.toList, Location.size found.1 < Path.sizeLimit)
    (found : disk.find path = .ok location) : disk.Canonicalizes path := by
  have near : disk.near = disk := by
    refine Disk.ext (fun place => ?_) rfl
    rw [get?_near]
    split
    · rfl
    next far =>
      cases held : disk.get? place with
      | none => rfl
      | some entry =>
          have member := Std.ExtTreeMap.mem_toList_iff_getElem?_eq_some.mpr held
          exact absurd (close _ member) far
  exact ⟨location, by rw [near, found]⟩

/-- When the canonical paths of two paths can be worked out, they are the same if the paths lead to the
same location. -/
theorem canonical_eq_of_find_eq (one : disk.Canonicalizes path) (two : disk.Canonicalizes other)
    (same : disk.find path = disk.find other) : disk.canonical path = disk.canonical other := by
  obtain ⟨first, one⟩ := one
  obtain ⟨second, two⟩ := two
  rw [(find_of_near one).1, (find_of_near two).1] at same
  obtain rfl := Except.ok.inj same
  rw [canonical, canonical, one, two]

/-- A path that leads too far from the root stands for itself. -/
theorem canonical_of_far (found : disk.find path = .ok location)
    (far : Path.sizeLimit ≤ Location.size location) : disk.canonical path = path := by
  unfold canonical
  cases worked : disk.near.find path with
  | error fault => rfl
  | ok other =>
      obtain ⟨same, near⟩ := find_of_near worked
      obtain rfl := Except.ok.inj (found.symm.trans same)
      rw [get?_near, if_neg (Nat.not_lt.mpr far)] at near
      cases near

theorem exists_find_of_isDirectory (found : disk.isDirectory path = true) :
    ∃ location, disk.find path = .ok location ∧ disk.get? location = some .directory := by
  unfold isDirectory read at found
  cases located : disk.find path with
  | error fault => simp [located] at found
  | ok location =>
      refine ⟨location, rfl, ?_⟩
      simp only [located] at found
      cases held : disk.get? location with
      | none => simp [held] at found
      | some entry => cases entry <;> simp_all

theorem isDirectory_of_find (found : disk.find path = .ok location)
    (held : disk.get? location = some .directory) : disk.isDirectory path = true := by
  rw [isDirectory, read, found]
  simp only [held]

/-- The path straight to a directory that was found near the root can be worked out as well. -/
theorem canonicalizes_toPath (found : disk.isDirectory location.toPath = true)
    (also : disk.isDirectory other = true) (arrived : disk.near.find other = .ok location) :
    disk.Canonicalizes location.toPath := by
  obtain ⟨located, near⟩ := find_of_near arrived
  obtain ⟨there, leads, held⟩ := exists_find_of_isDirectory also
  obtain rfl := Except.ok.inj (located.symm.trans leads)
  have directory : disk.near.get? location = some .directory := by
    obtain ⟨entry, entered⟩ := Option.isSome_iff_exists.mp near
    rw [entered, ← held, get?_of_near entered]
  rw [Canonicalizes, near_find_toPath directory]
  exact (exists_find_of_isDirectory found).imp fun _ => And.left

/-- Directories with the same canonical path are the same. -/
theorem find_eq_of_canonical_eq (found : disk.isDirectory path = true)
    (also : disk.isDirectory other = true) (same : disk.canonical path = disk.canonical other) :
    disk.find path = disk.find other := by
  unfold canonical at same
  cases one : disk.near.find path with
  | ok first =>
      cases two : disk.near.find other with
      | ok second =>
          rw [one, two] at same
          obtain rfl := Location.toPath_inj same
          rw [(find_of_near one).1, (find_of_near two).1]
      | error fault =>
          rw [one, two] at same
          subst same
          obtain ⟨_, worked⟩ := canonicalizes_toPath also found one
          cases two.symm.trans worked
  | error fault =>
      cases two : disk.near.find other with
      | ok second =>
          rw [one, two] at same
          subst same
          obtain ⟨_, worked⟩ := canonicalizes_toPath found also two
          cases one.symm.trans worked
      | error _ =>
          rw [one, two] at same
          exact congrArg disk.find same

section Plain

/-- The number of bytes of the name that a step leads to, with the slash before it. -/
def Step.size : Step → Nat
  | .along (.name name) => name.text.utf8ByteSize + 1
  | _ => 0

/-- The number of bytes of the names that steps lead to, each with a slash before it. -/
def sizeOfSteps : List Step → Nat
  | [] => 0
  | step :: rest => step.size + sizeOfSteps rest

theorem sizeOfSteps_append (first second : List Step) :
    sizeOfSteps (first ++ second) = sizeOfSteps first + sizeOfSteps second := by
  induction first with
  | nil => exact (Nat.zero_add _).symm
  | cons step rest ih =>
      rw [List.cons_append, sizeOfSteps, sizeOfSteps, ih]
      omega

theorem size_advance_le (location : Location) (step : Step) :
    (location.advance step).size ≤ location.size + step.size := by
  cases step with
  | slash => exact Nat.le_add_right _ _
  | along component =>
      cases component with
      | root => exact Nat.zero_le _
      | current => exact Nat.le_add_right _ _
      | parent =>
          rcases List.eq_nil_or_concat location with rfl | ⟨above, last, rfl⟩
          · exact Nat.zero_le _
          · rw [List.concat_eq_append, Location.advance, List.dropLast_concat, Location.size_append]
            omega
      | name name => simp [Location.advance, Location.size, Step.size]

/-- The steps to components are no longer than the pieces of the path. -/
theorem sizeOfSteps_le (pieces : List (List Char)) :
    sizeOfSteps ((pieces.filterMap Component.ofPiece?).map .along) ≤ sizeOfPieces pieces := by
  induction pieces with
  | nil => exact Nat.le_refl 0
  | cons piece others ih =>
      rw [List.filterMap_cons, sizeOfPieces]
      have fits : ∀ component ∈ Component.ofPiece? piece,
          (Step.along component).size ≤ (Text.bytesOf piece).length + 1 := by
        intro component read
        rw [Option.mem_def, Component.ofPiece?] at read
        split at read
        · cases read
          exact Nat.zero_le _
        · obtain ⟨name, named, rfl⟩ := Option.map_eq_some_iff.mp read
          apply Nat.le_of_eq
          rw [Step.size, Name.ofText?_eq_some.mp named, ← Text.length_bytesOf, String.toList_ofList]
      cases read : Component.ofPiece? piece with
      | none => exact Nat.le_add_left_of_le ih
      | some component =>
          rw [List.map_cons, sizeOfSteps]
          exact Nat.add_le_add (fits component read) ih

/-- The steps of an absolute path start at the root, and are no longer than the path. -/
theorem steps_of_isAbsolute (absolute : path.isAbsolute = true) :
    ∃ rest, path.steps = .along .root :: rest ∧
      sizeOfSteps rest ≤ path.text.utf8ByteSize := by
  obtain ⟨chars, written⟩ : ∃ chars, path.text.toList = '/' :: chars := by
    unfold Path.isAbsolute at absolute
    cases written : path.text.toList with
    | nil => simp [written] at absolute
    | cons c chars =>
        obtain rfl : c = '/' := by simpa [written] using absolute
        exact ⟨chars, rfl⟩
  have opening : path.opening = (some .root, Path.pieces chars) := by
    rw [Path.opening, written]
    rfl
  have last : sizeOfSteps path.lastStep?.toList = 0 := by
    unfold Path.lastStep?
    dsimp only
    split
    · rfl
    · split <;> rfl
  refine ⟨((Path.pieces chars).filterMap Component.ofPiece?).map .along ++ path.lastStep?.toList,
    ?_, ?_⟩
  · rw [Path.steps, Path.components, opening]
    rfl
  · rw [sizeOfSteps_append, last, ← Text.length_bytesOf, written, length_bytesOf_slash]
    exact sizeOfSteps_le _

/-- A walk without links does not get further away from the root than its steps are long. -/
theorem near_walkWith (plain : disk.Plain)
    (short : location.size + sizeOfSteps steps < Path.sizeLimit)
    (ended : disk.walkWith .look followAll location steps = .ok (.entry arrived)) :
    disk.near.walkWith .look follow location steps = .ok (.entry arrived) := by
  induction steps generalizing location with
  | nil => exact ended
  | cons step rest ih =>
      obtain ⟨directory, fits, ⟨there, onward⟩ | ⟨_, _, _, _, vacant⟩⟩ :=
        of_walkWith_cons plain ended
      · have further := size_advance_le location step
        rw [sizeOfSteps] at short
        obtain ⟨entry, held⟩ := Option.isSome_iff_exists.mp there
        have close : (location.advance step).size < Path.sizeLimit := by omega
        have start : disk.near.get? location = some .directory := by
          rw [get?_near, if_pos (by omega), directory]
        have next : disk.near.get? (location.advance step) = some entry := by
          rw [get?_near, if_pos close, held]
        rw [walkWith_look_cons fits start next fun target link => plain _ target (link ▸ held)]
        exact ih (by omega) onward
      · cases vacant

/-- On a disk without links, all that an absolute path leads to lies near enough. -/
theorem near_find (plain : disk.Plain) (absolute : path.isAbsolute = true)
    (found : disk.find path = .ok location) : disk.near.find path = .ok location := by
  obtain ⟨accepted, landed⟩ := find_eq_ok.mp found
  obtain ⟨-, -, limit⟩ := Path.fault?_eq_none.mp accepted
  obtain ⟨rest, steps, short⟩ := steps_of_isAbsolute absolute
  refine find_eq_ok.mpr ⟨accepted, ?_⟩
  rw [steps, landing_root] at landed ⊢
  refine near_walkWith plain ?_ landed
  have root : Location.size [] = 0 := rfl
  omega

end Plain

section Far

variable {height count : Nat}

/-- Directories with long names, each in the one before. -/
def tower : (height : Nat) → Disk
  | 0 => empty
  | height + 1 => (tower height).put (.replicate (height + 1) (.row 254)) .directory

theorem of_get?_tower (held : (tower height).get? location = some entry) :
    ∃ count ≤ height, location = List.replicate count (.row 254) := by
  induction height with
  | zero =>
      simp only [tower, empty, get?, Std.ExtTreeMap.getElem?_insert, Std.compare_eq_iff_eq] at held
      split at held
      next top => exact ⟨0, Nat.le_refl 0, top.symm⟩
      · simp at held
  | succ height ih =>
      rw [tower, get?_put] at held
      split at held
      next top => exact ⟨height + 1, Nat.le_refl _, top.2.symm⟩
      · obtain ⟨count, fewer, same⟩ := ih held
        exact ⟨count, Nat.le_succ_of_le fewer, same⟩

theorem get?_tower (inside : count ≤ height) :
    (tower height).get? (.replicate count (.row 254)) = some .directory := by
  induction height generalizing count with
  | zero =>
      obtain rfl := Nat.le_zero.mp inside
      exact get?_root _
  | succ height ih =>
      rw [tower, get?_put]
      rcases Nat.le_succ_iff.mp inside with lower | rfl
      · rw [if_neg, ih lower]
        rintro ⟨-, same⟩
        have lengths := congrArg List.length same
        simp only [List.length_replicate] at lengths
        omega
      · rw [if_pos]
        refine ⟨⟨by simp, ?_, fun there => ?_⟩, rfl⟩
        · rw [List.replicate_succ', List.dropLast_concat]
          exact ih (Nat.le_refl height)
        · obtain ⟨other, fewer, same⟩ := of_get?_tower there
          have lengths := congrArg List.length same
          simp only [List.length_replicate] at lengths
          omega

/-- The name of a link to a directory far from the root. -/
def shortcut : Name :=
  ⟨"l", by decide, by decide, by decide, by decide⟩

/-- The name of a link from a directory to itself. -/
def loop : Name :=
  ⟨"s", by decide, by decide, by decide, by decide⟩

/-- The first directory of a tower whose path is too long. -/
def summit : Location :=
  .replicate 16 (.row 254)

/-- A tower with a link at the root to the directory below the summit, and one from the summit to
itself. -/
def farLoop : Disk :=
  ((tower 16).put [shortcut] (.link (Location.toPath (.replicate 15 (.row 254))))).put
    (summit ++ [loop]) (.link ⟨"."⟩)

theorem get?_tower_shortcut : (tower height).get? [shortcut] = none := by
  cases held : (tower height).get? [shortcut] with
  | none => rfl
  | some entry =>
      obtain ⟨count, -, same⟩ := of_get?_tower held
      obtain rfl : 1 = count := by simpa using congrArg List.length same
      rw [List.replicate_one, List.singleton_inj] at same
      have sizes := congrArg (·.text.utf8ByteSize) same
      rw [Name.utf8ByteSize_row] at sizes
      exact absurd sizes (by decide)

theorem get?_tower_above (name : Name) : (tower 16).get? (summit ++ [name]) = none := by
  cases held : (tower 16).get? (summit ++ [name]) with
  | none => rfl
  | some entry =>
      obtain ⟨count, fewer, same⟩ := of_get?_tower held
      have lengths := congrArg List.length same
      simp only [summit, List.length_append, List.length_replicate, List.length_singleton] at lengths
      omega

theorem summit_ne_shortcut : [shortcut] ≠ summit :=
  ne_of_apply_ne List.length (by simp [summit])

theorem above_ne_shortcut (name : Name) : summit ++ [name] ≠ [shortcut] :=
  ne_of_apply_ne List.length (by simp [summit])

theorem get?_farLoop (location : Location) :
    farLoop.get? location =
      if summit ++ [loop] = location then some (.link ⟨"."⟩)
      else if [shortcut] = location then some (.link (Location.toPath (.replicate 15 (.row 254))))
      else (tower 16).get? location := by
  have admits : (tower 16).Admits [shortcut] := by
    refine ⟨List.cons_ne_nil _ _, get?_root _, fun held => ?_⟩
    rw [get?_tower_shortcut] at held
    cases held
  have admitsLoop : ((tower 16).put [shortcut]
      (.link (Location.toPath (.replicate 15 (.row 254))))).Admits (summit ++ [loop]) := by
    refine ⟨by simp, ?_, fun held => ?_⟩
    · rw [List.dropLast_concat, get?_put, if_neg fun put => summit_ne_shortcut put.2]
      exact get?_tower (Nat.le_refl 16)
    · rw [get?_put, if_neg fun put => above_ne_shortcut loop put.2.symm, get?_tower_above] at held
      cases held
  rw [farLoop, get?_put, get?_put]
  simp only [admits, admitsLoop, true_and]

theorem get?_farLoop_summit : farLoop.get? summit = some .directory := by
  have below : summit ++ [loop] ≠ summit := ne_of_apply_ne List.length (by simp)
  rw [get?_farLoop, if_neg below, if_neg summit_ne_shortcut]
  exact get?_tower (Nat.le_refl 16)

theorem get?_farLoop_shortcut :
    farLoop.get? [shortcut] = some (.link (Location.toPath (.replicate 15 (.row 254)))) := by
  rw [get?_farLoop, if_neg (above_ne_shortcut loop), if_pos rfl]

theorem get?_farLoop_loop : farLoop.get? (summit ++ [loop]) = some (.link ⟨"."⟩) := by
  rw [get?_farLoop, if_pos rfl]

/-- The way over the shortcut leads to the summit, along one link. -/
theorem walkWith_shortcut (rest : List Step) :
    farLoop.walkWith .look (farLoop.walk .look 39) []
        (along [shortcut, .row 254] ++ rest) =
      farLoop.walkWith .look (farLoop.walk .look 38) summit rest := by
  have steps : (Location.toPath (.replicate 15 (.row 254))).steps =
      .along .root :: along (.replicate 15 (.row 254)) := Path.steps_fromRoot (by simp)
  have highest : along (.replicate 15 (.row 254)) ++ along [.row 254] = along summit := by
    have last : summit = .replicate 15 (.row 254) ++ [.row 254] := List.replicate_succ'
    rw [last, along, along, along, List.map_append]
  have top : farLoop.get? ([] ++ summit) = some .directory := get?_farLoop_summit
  have short : Short summit := by
    intro name member
    rw [List.eq_of_mem_replicate member, Name.utf8ByteSize_row]
    decide
  have climbs := @walkWith_straight farLoop .look (farLoop.walk .look 38) [] summit rest .directory
    short top (fun _ same => by cases same) (fun same => by cases same)
  rw [List.nil_append] at climbs
  rw [← climbs]
  have step : along [shortcut, .row 254] ++ rest =
      .along (.name shortcut) :: (along [.row 254] ++ rest) := rfl
  rw [step, walkWith_link (get?_root _) (by decide) get?_farLoop_shortcut, walk, steps, List.cons_append, walkWith,
    get?_root]
  dsimp only
  rw [← List.append_assoc, highest]

/-- The place at which names stand behind the shortcut. -/
def behind (names : List Name) : Place :=
  ⟨.root, [shortcut, .row 254] ++ names⟩

theorem below_behind : (behind []).below [loop] = behind [loop] := by
  simp [Place.below, behind]

theorem fault?_behind : (behind [loop]).toPath.fault? = none := by
  have names : (behind [loop]).toPath = Location.toPath [shortcut, .row 254, loop] := rfl
  rw [names, Path.fault?_eq_none]
  have size : Location.size [shortcut, .row 254, loop] = 260 := by
    simp only [Location.size, Name.utf8ByteSize_row]
    decide
  have written := Location.utf8ByteSize_toPath (List.cons_ne_nil shortcut [.row 254, loop])
  refine ⟨?_, fun empty => ?_, ?_⟩
  · have chars : (Location.toPath [shortcut, .row 254, loop]).text.toList = _ :=
      Path.toList_fromRoot _
    rw [chars]
    simp [Path.piecesOf, Path.joined, Name.clean_row, shortcut, loop]
  · rw [empty, size] at written
    cases written
  · rw [written, size]
    decide

/-- The way over the shortcut leads to the summit, and so does the link there. -/
theorem find_behind :
    farLoop.find (behind []).toPath = .ok summit ∧
      farLoop.find (behind [loop]).toPath = .ok summit := by
  have steps : ∀ names, (behind names).toPath.steps =
      .along .root :: (along [shortcut, .row 254] ++ along names) := fun names =>
    (Path.steps_fromRoot (by simp [behind])).trans (by simp [behind, along])
  have accepted : (behind []).toPath.fault? = none :=
    Path.fault?_fromRoot_above fault?_behind (List.prefix_append _ [loop])
  constructor
  · rw [find_eq_ok, steps, landing_root, walkWith_shortcut]
    exact ⟨accepted, rfl⟩
  · rw [find_eq_ok, steps, landing_root, walkWith_shortcut]
    have spot : (⟨"."⟩ : Path).steps = [.along .current] := by decide
    have step : along [loop] = [.along (.name loop)] := rfl
    refine ⟨fault?_behind, ?_⟩
    rw [step, walkWith_link get?_farLoop_summit (by decide) get?_farLoop_loop, walk, spot,
      List.append_nil, walkWith, get?_farLoop_summit]
    rfl

theorem mem_names_summit {name : Name} : name ∈ farLoop.names summit ↔ name = loop := by
  rw [mem_names]
  constructor
  · intro found
    rw [get?_farLoop, if_neg (above_ne_shortcut name).symm, get?_tower_above] at found
    split at found
    next same => exact (List.singleton_inj.mp (List.append_cancel_left same)).symm
    next => cases found
  · rintro rfl
    rw [get?_farLoop_loop]
    rfl

theorem size_replicate (count : Nat) (name : Name) :
    Location.size (.replicate count name) = count * (name.text.utf8ByteSize + 1) := by
  induction count with
  | zero => rw [Nat.zero_mul]; rfl
  | succ count ih =>
      rw [List.replicate_succ', Location.size_append, ih, Nat.succ_mul]
      rfl

theorem size_summit : Location.size summit = 4096 := by
  rw [summit, size_replicate, Name.utf8ByteSize_row]

end Far

end Disk

end Stencil
