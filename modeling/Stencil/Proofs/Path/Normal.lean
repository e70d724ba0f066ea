import Stencil.Proofs.Path.Places

/-!
# Normal forms of paths

The normal form of a path is the path of the place that it leads to.  It holds no dot and no step up
behind a name or the root, and it leads where the path leads, from every directory.  Two paths that
lead alike from everywhere have one normal form, which can be taken of a part of a path as well as
of the whole.
-/

namespace Stencil

namespace Place

variable {path next : Path}

/-- Dots lead nowhere. -/
theorem foldl_follow_filter (components : List Component) (start : Place) :
    (components.filter (· ≠ .current)).foldl follow start = components.foldl follow start := by
  induction components generalizing start with
  | nil => rfl
  | cons component rest ih =>
      by_cases dot : component = .current
      · subst dot
        rw [List.filter_cons_of_neg (by simp), List.foldl_cons]
        exact ih start
      · rw [List.filter_cons_of_pos (by simpa using dot), List.foldl_cons, List.foldl_cons]
        exact ih (start.follow component)

/-- A relative path is followed from where the path before it leads. -/
theorem ofPath_join (relative : next.isAbsolute = false) :
    ofPath (path.join next) = next.components.foldl follow (ofPath path) := by
  rw [ofPath, ← foldl_follow_filter, Path.filter_components_join path relative, List.foldl_append,
    foldl_follow_filter, foldl_follow_filter]
  rfl

/-- Where a place lies, seen from a directory that is given by its names below the root. -/
def namesFrom (place : Place) (directory : List Name) : List Name :=
  match place.anchor with
  | .root => place.names
  | .above levels => directory.take (directory.length - levels) ++ place.names

end Place

namespace Path

/-- Where one component leads from a directory that is given by its names below the root.  The way
up from the root leads to the root. -/
def lead (directory : List Name) : Component → List Name
  | .root => []
  | .current => directory
  | .parent => directory.dropLast
  | .name name => directory ++ [name]

/-- Where a path leads from a directory. -/
def leadFrom (path : Path) (directory : List Name) : List Name :=
  path.components.foldl lead directory

/-- The normal form of a path. -/
def normalize (path : Path) : Path :=
  (Place.ofPath path).toPath

/-- There is no dot in a path, and no step up behind a name or anywhere behind the root. -/
structure Normal (path : Path) : Prop where
  no_current : .current ∉ path.components
  no_parent_behind_name : ∀ before name after,
    path.components ≠ before ++ .name name :: .parent :: after
  no_parent_behind_root : .root ∈ path.components → .parent ∉ path.components

end Path

namespace Place

variable {place other : Place}

theorem namesFrom_child (place : Place) (name : Name) (directory : List Name) :
    (place.child name).namesFrom directory = place.namesFrom directory ++ [name] := by
  obtain ⟨_ | levels, names⟩ := place
  · rfl
  · simp [namesFrom, child]

/-- A place moves as the names do that it has from a directory. -/
theorem namesFrom_follow (place : Place) (component : Component) (directory : List Name) :
    (place.follow component).namesFrom directory =
      Path.lead (place.namesFrom directory) component := by
  cases component with
  | root => rfl
  | current => rfl
  | name name => exact namesFrom_child place name directory
  | parent =>
      obtain ⟨anchor, names⟩ := place
      rcases List.eq_nil_or_concat names with rfl | ⟨front, last, rfl⟩
      · cases anchor with
        | root => rfl
        | above levels =>
            simp [follow, up, namesFrom, Path.lead, List.dropLast_eq_take, List.take_take]
            omega
      · have concat : Place.mk anchor (front.concat last) = (Place.mk anchor front).child last := by
          rw [List.concat_eq_append]
          rfl
        rw [concat, namesFrom_child, follow, up_child, Path.lead, List.dropLast_concat]

/-- A path leads to where its place lies. -/
theorem namesFrom_ofPath (path : Path) (directory : List Name) :
    (ofPath path).namesFrom directory = path.leadFrom directory := by
  have onward : ∀ (components : List Component) (start : Place),
      (components.foldl follow start).namesFrom directory =
        components.foldl Path.lead (start.namesFrom directory) := by
    intro components
    induction components with
    | nil => exact fun _ => rfl
    | cons component rest ih =>
        intro start
        rw [List.foldl_cons, List.foldl_cons, ih, namesFrom_follow]
  have here : Place.here.namesFrom directory = directory := by simp [Place.here, namesFrom]
  rw [ofPath, onward, here, Path.leadFrom]

section Apart

variable {levels more : Nat} {names others : List Name}

/-- A place that does not lead up as far keeps more of the directory. -/
theorem le_of_namesFrom
    (same : ∀ directory, (Place.mk (.above levels) names).namesFrom directory =
      (Place.mk (.above more) others).namesFrom directory) : more ≤ levels := by
  let first : Name := ⟨"a", by decide, by decide, by decide, by decide⟩
  let second : Name := ⟨"b", by decide, by decide, by decide, by decide⟩
  have outside : ∀ name : Name, List.replicate (more - levels) name ++ names = others := by
    intro name
    have seen := same (List.replicate more name)
    simpa [namesFrom, List.take_replicate] using seen
  have copies := List.append_cancel_right ((outside first).trans (outside second).symm)
  rw [List.replicate_inj] at copies
  have apart : first ≠ second := by decide
  have none := copies.2.resolve_right apart
  omega

/-- An absolute place lies alike from everywhere, and no other place does. -/
theorem not_namesFrom_eq :
    ¬ ∀ directory, (Place.mk (.above levels) names).namesFrom directory = others := by
  intro same
  let name : Name := ⟨"a", by decide, by decide, by decide, by decide⟩
  have seen := congrArg List.length (same (List.replicate (levels + others.length + 1) name))
  simp [namesFrom, List.take_replicate] at seen
  omega

end Apart

/-- Places that lie alike from everywhere are the same. -/
theorem eq_of_namesFrom
    (same : ∀ directory, place.namesFrom directory = other.namesFrom directory) :
    place = other := by
  obtain ⟨_ | levels, names⟩ := place <;> obtain ⟨_ | more, others⟩ := other
  · exact Place.ext rfl (same [])
  · exact absurd (fun directory => (same directory).symm) not_namesFrom_eq
  · exact absurd same not_namesFrom_eq
  · obtain rfl : levels = more :=
      Nat.le_antisymm (le_of_namesFrom fun directory => (same directory).symm) (le_of_namesFrom same)
    exact Place.ext rfl (by simpa [namesFrom] using same [])

/-- In a place a step up stands only behind other steps up. -/
theorem pairwise_components (place : Place) :
    place.components.Pairwise fun first second => second = .parent → first = .parent := by
  obtain ⟨_ | levels, names⟩ := place <;>
    simp [components, anchorComponents, List.pairwise_append, List.pairwise_map,
      List.pairwise_replicate, List.pairwise_of_forall]

theorem normal_toPath (place : Place) : place.toPath.Normal where
  no_current := by
    rw [components_toPath]
    obtain ⟨_ | levels, names⟩ := place <;> simp [components, anchorComponents]
  no_parent_behind_name before name after whole := by
    rw [components_toPath] at whole
    have pairs := pairwise_components place
    rw [whole, List.pairwise_append, List.pairwise_cons] at pairs
    cases pairs.2.1.1 .parent List.mem_cons_self rfl
  no_parent_behind_root := by
    rw [components_toPath]
    obtain ⟨_ | levels, names⟩ := place <;> simp [components, anchorComponents]

end Place

namespace Path

theorem ofPath_normalize (path : Path) : Place.ofPath path.normalize = Place.ofPath path :=
  Place.ofPath_toPath _

theorem normalize_normalize (path : Path) : path.normalize.normalize = path.normalize := by
  rw [normalize, ofPath_normalize, normalize]

theorem leadFrom_normalize (path : Path) (directory : List Name) :
    path.normalize.leadFrom directory = path.leadFrom directory := by
  rw [← Place.namesFrom_ofPath, ofPath_normalize, Place.namesFrom_ofPath]

theorem isAbsolute_normalize (path : Path) : path.normalize.isAbsolute = path.isAbsolute := by
  rw [Bool.eq_iff_iff, normalize, Place.isAbsolute_toPath]
  refine ⟨fun absolute => ?_, Place.absolute_ofPath⟩
  cases rooted : path.isAbsolute with
  | true => rfl
  | false =>
      obtain ⟨more, -, above⟩ :=
        Place.anchor_foldl_follow (root_not_mem_components rooted) 0 []
      cases above.symm.trans absolute

theorem normalize_join (path next : Path) :
    (path.join next).normalize = (path.normalize.join next).normalize := by
  cases rooted : next.isAbsolute with
  | true => rw [join, join, if_pos rooted, if_pos rooted]
  | false =>
      rw [normalize, normalize, Place.ofPath_join rooted, Place.ofPath_join rooted,
        ofPath_normalize]

/-- The normal form of a path holds no step that can be left out, begins at the root when the path
does, and leads where the path leads.  Paths have one normal form just when they lead alike from
everywhere, the normal form is its own, and what is joined to a path may as well be joined to its
normal form. -/
theorem normalize_canonical (path : Path) :
    path.normalize.Normal ∧ path.normalize.isAbsolute = path.isAbsolute ∧
      (∀ directory, path.normalize.leadFrom directory = path.leadFrom directory) ∧
      (∀ other : Path, path.normalize = other.normalize ↔
        ∀ directory, path.leadFrom directory = other.leadFrom directory) ∧
      path.normalize.normalize = path.normalize ∧
      ∀ next, (path.join next).normalize = (path.normalize.join next).normalize := by
  refine ⟨Place.normal_toPath _, isAbsolute_normalize path, leadFrom_normalize path, fun other => ?_,
    normalize_normalize path, normalize_join path⟩
  constructor
  · intro same directory
    rw [← leadFrom_normalize, same, leadFrom_normalize]
  · intro same
    have place : Place.ofPath path = Place.ofPath other := Place.eq_of_namesFrom fun directory => by
      rw [Place.namesFrom_ofPath, Place.namesFrom_ofPath, same]
    rw [normalize, normalize, place]

end Path

end Stencil
