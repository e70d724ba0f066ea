import Stencil.Path.Place
import Stencil.Proofs.Path.Components

/-!
# Absolute places

A place that starts at the root is written as its names, and that path leads to the place again
from everywhere.  Whatever path is followed from an absolute place, it leads to an absolute place,
and a path that does not leave the directory that it starts from leads to the same names in every
directory.
-/

namespace Stencil.Place

/-- A place starts at the root. -/
def Absolute (place : Place) : Prop :=
  place.anchor = .root

instance (place : Place) : Decidable place.Absolute :=
  inferInstanceAs (Decidable (_ = _))

/-- A place is a directory itself or lies below it. -/
def Within (place directory : Place) : Prop :=
  place.anchor = directory.anchor ∧ directory.names <+: place.names

instance (place directory : Place) : Decidable (place.Within directory) :=
  inferInstanceAs (Decidable (_ ∧ _))

@[simp]
theorem absolute_root (names : List Name) : Absolute ⟨.root, names⟩ := rfl

namespace Absolute

variable {place other : Place}

theorem toPath (absolute : place.Absolute) : place.toPath = .fromRoot place.names := by
  rcases place with ⟨anchor, names⟩
  cases absolute
  rfl

theorem components (absolute : place.Absolute) :
    place.components = .root :: place.names.map .name := by
  rcases place with ⟨anchor, names⟩
  cases absolute
  rfl

theorem ext (absolute : place.Absolute) (also : other.Absolute)
    (names : place.names = other.names) : place = other :=
  Place.ext (absolute.trans also.symm) names

theorem within_iff (absolute : place.Absolute) (also : other.Absolute) :
    place.Within other ↔ other.names <+: place.names :=
  and_iff_right (absolute.trans also.symm)

theorem child (absolute : place.Absolute) (name : Name) : (place.child name).Absolute := absolute

theorem follow (absolute : place.Absolute) (component : Component) :
    (place.follow component).Absolute := by
  rcases place with ⟨anchor, names⟩
  cases absolute
  cases component with
  | root => rfl
  | current => rfl
  | parent => cases names <;> rfl
  | name entry => rfl

theorem foldl_follow (absolute : place.Absolute) (components : List Component) :
    (components.foldl Place.follow place).Absolute := by
  induction components generalizing place with
  | nil => exact absolute
  | cons component rest ih => exact ih (absolute.follow component)

end Absolute

theorem foldl_follow_names (place : Place) (names : List Name) :
    (names.map .name).foldl follow place = ⟨place.anchor, place.names ++ names⟩ := by
  induction names generalizing place with
  | nil => simp
  | cons name rest ih =>
      rw [List.map_cons, List.foldl_cons, ih]
      simp [follow, child]

@[simp]
theorem ofPath_fromRoot (names : List Name) : ofPath (.fromRoot names) = ⟨.root, names⟩ := by
  rw [ofPath, Path.components_fromRoot, List.foldl_cons, foldl_follow_names]
  rfl

theorem foldl_follow_parents (levels more : Nat) :
    (List.replicate more Component.parent).foldl follow ⟨.above levels, []⟩ =
      ⟨.above (levels + more), []⟩ := by
  induction more generalizing levels with
  | zero => rfl
  | succ more ih =>
      have onward := ih (levels + 1)
      rw [Nat.add_right_comm] at onward
      exact onward

/-- A place below the directory that relative paths start from has components that may stand behind
others. -/
theorem inner_components (levels : Nat) (names : List Name) :
    ∀ component ∈ (Place.mk (.above levels) names).components, component.Inner := by
  intro component member
  rcases List.mem_append.mp member with parents | named
  · rw [List.eq_of_mem_replicate parents]
    trivial
  · exact Component.inner_names names component named

/-- The path of a place begins at the root when the place does. -/
theorem isAbsolute_toPath {place : Place} : place.toPath.isAbsolute = true ↔ place.Absolute := by
  rcases place with ⟨_ | levels, names⟩
  · exact iff_of_true (Path.isAbsolute_fromRoot names) rfl
  · have relative : (Place.mk (.above levels) names).toPath.isAbsolute = false :=
      Path.isAbsolute_ofComponents (inner_components levels names)
    exact iff_of_false (Bool.eq_false_iff.mp relative) nofun

/-- The path of a place has the components of the place. -/
@[simp]
theorem components_toPath (place : Place) : place.toPath.components = place.components := by
  rcases place with ⟨_ | levels, names⟩
  · exact Path.components_fromRoot names
  · exact Path.components_ofComponents (inner_components levels names)

/-- Going on along a relative path from a place. -/
theorem components_toPath_join (place : Place) {path : Path} (relative : path.isAbsolute = false)
    (bare : .current ∉ path.components) :
    (place.toPath.join path).components = place.components ++ path.components := by
  rcases place with ⟨_ | levels, names⟩
  · have joined := Path.components_fromRoot_join relative names
    rw [Path.filter_components_of_bare bare] at joined
    exact joined
  · exact Path.components_ofComponents_join (inner_components levels names) relative bare

section Joins

variable (place : Place) {inside : List Component} (nonempty : inside ≠ [])
  (inner : ∀ component ∈ inside, component.Inner)

include nonempty inner

/-- Going on along components from a place. -/
theorem toPath_join_ofComponents :
    place.toPath.join (.ofComponents inside) = .ofComponents (place.components ++ inside) := by
  rcases place with ⟨_ | levels, names⟩
  · exact Path.join_ofComponents_root nonempty (Component.inner_names names) inner
  · exact Path.join_ofComponents nonempty (inner_components levels names) inner

theorem steps_ofComponents_append :
    (Path.ofComponents (place.components ++ inside)).steps =
      (place.components ++ inside).map .along := by
  rcases place with ⟨_ | levels, names⟩
  · have all : ∀ component ∈ names.map .name ++ inside, component.Inner := fun component member =>
      (List.mem_append.mp member).elim (Component.inner_names names component) (inner component)
    exact Path.steps_ofComponents_root all (by simp [nonempty])
  · have all : ∀ component ∈ (Place.mk (.above levels) names).components ++ inside,
        component.Inner := fun component member =>
      (List.mem_append.mp member).elim (inner_components levels names component) (inner component)
    exact Path.steps_ofComponents all (by simp [nonempty])

end Joins

/-- The path of a place does not end with a name any more when an empty path is added to it. -/
theorem unnamed_toPath_join (place : Place) : (place.toPath.join ⟨""⟩).Unnamed := by
  rcases place with ⟨_ | levels, names⟩
  · have steps := Path.steps_join_empty names
    rw [Path.Unnamed, (absolute_root names).toPath, steps, ← List.cons_append, List.getLast?_concat]
    nofun
  · have inner := inner_components levels names
    by_cases top : (Place.mk (.above levels) names).components = []
    · have steps : ((Path.ofComponents []).join ⟨""⟩).steps = [.slash] := by decide
      rw [Path.Unnamed, toPath, top, steps]
      nofun
    · have opening := @Path.opening_ofComponents_join _ ⟨""⟩ inner top rfl
      have last := Path.lastStep?_eq_slash inner (congrArg Prod.snd opening)
      rw [Path.Unnamed, toPath, Path.steps, last, Option.toList_some, List.getLast?_concat]
      nofun

/-- The path of a place is in normal form. -/
theorem ofPath_toPath (place : Place) : ofPath place.toPath = place := by
  rcases place with ⟨_ | levels, names⟩
  · exact ofPath_fromRoot names
  · rw [ofPath, components_toPath, components, anchorComponents, List.foldl_append, here,
      foldl_follow_parents, foldl_follow_names]
    simp

/-- The path of an absolute place leads there from everywhere. -/
theorem resolve_toPath (start : Place) {place : Place} (absolute : place.Absolute) :
    start.resolve place.toPath = place := by
  rw [resolve, Path.join, absolute.toPath, if_pos (Path.isAbsolute_fromRoot _), ofPath_fromRoot]
  exact (absolute_root _).ext absolute rfl

theorem absolute_ofPath {path : Path} (absolute : path.isAbsolute = true) :
    (ofPath path).Absolute := by
  have opening : ∃ rest, path.opening = (some .root, Path.pieces rest) := by
    unfold Path.opening
    cases written : path.text.toList with
    | nil => simp [Path.isAbsolute, written] at absolute
    | cons c rest =>
        obtain rfl : c = '/' := by simpa [Path.isAbsolute, written] using absolute
        exact ⟨rest, rfl⟩
  rcases opening with ⟨rest, opening⟩
  rw [ofPath, Path.components, opening]
  exact (absolute_root []).foldl_follow _

/-- All paths from an absolute place lead to absolute places. -/
theorem Absolute.resolve {place : Place} (absolute : place.Absolute) (path : Path) :
    (place.resolve path).Absolute := by
  apply absolute_ofPath
  rw [absolute.toPath, Path.join]
  have written := Path.toList_fromRoot place.names
  split
  · assumption
  · split <;> simp [Path.isAbsolute, written]

/-! ## Paths inside of a directory -/

theorem up_child (place : Place) (name : Name) : (place.child name).up = place := by
  rcases place with ⟨anchor, names⟩
  cases names with
  | nil => rfl
  | cons first rest =>
      have names : (first :: rest ++ [name]).dropLast = first :: rest := List.dropLast_concat
      exact Place.ext rfl names

/-- The place at which names stand in a directory. -/
def below (directory : Place) (names : List Name) : Place :=
  ⟨directory.anchor, directory.names ++ names⟩

@[simp]
theorem below_nil (directory : Place) : directory.below [] = directory := by
  rw [below, List.append_nil]

theorem below_cons (directory : Place) (name : Name) (inside : List Name) :
    directory.below (name :: inside) = (directory.child name).below inside := by
  simp [below, child]

/-- A path that has left the directory that it starts from does not come back to it. -/
theorem anchor_foldl_follow {components : List Component} (relative : .root ∉ components)
    (levels : Nat) (names : List Name) :
    ∃ more, levels ≤ more ∧
      (components.foldl follow ⟨.above levels, names⟩).anchor = .above more := by
  induction components generalizing levels names with
  | nil => exact ⟨levels, Nat.le_refl levels, rfl⟩
  | cons component rest ih =>
      rw [List.mem_cons, not_or] at relative
      rw [List.foldl_cons]
      cases component with
      | root => exact absurd rfl relative.1
      | current => exact ih relative.2 levels names
      | name entry => exact ih relative.2 levels (names ++ [entry])
      | parent =>
          cases names with
          | nil =>
              obtain ⟨more, deeper, anchor⟩ := ih relative.2 (levels + 1) []
              exact ⟨more, by omega, anchor⟩
          | cons first others => exact ih relative.2 levels (first :: others).dropLast

/-- Components that stay inside lead to the same names from everywhere. -/
theorem foldl_follow_below {components : List Component} (relative : .root ∉ components)
    (directory : Place) {names last : List Name}
    (inside : components.foldl follow ⟨.above 0, names⟩ = ⟨.above 0, last⟩) :
    (components.filter (· ≠ .current)).foldl follow (directory.below names) =
      directory.below last := by
  induction components generalizing names with
  | nil =>
      obtain rfl := congrArg Place.names inside
      rfl
  | cons component rest ih =>
      rw [List.mem_cons, not_or] at relative
      rw [List.foldl_cons] at inside
      cases component with
      | root => exact absurd rfl relative.1
      | current => exact ih relative.2 inside
      | name entry =>
          have onward := @ih relative.2 (names ++ [entry]) inside
          simpa [follow, child, below] using onward
      | parent =>
          rcases List.eq_nil_or_concat names with rfl | ⟨front, entry, rfl⟩
          · obtain ⟨more, deeper, anchor⟩ := anchor_foldl_follow relative.2 1 []
            have still : (rest.foldl follow ⟨.above 1, []⟩).anchor = .above 0 :=
              congrArg Place.anchor inside
            rw [anchor] at still
            obtain rfl := Anchor.above.inj still
            omega
          · have above : ∀ start : Place, (start.below (front.concat entry)).follow .parent =
                start.below front := by
              intro start
              rw [List.concat_eq_append, below, ← List.append_assoc]
              exact up_child (start.below front) entry
            have start : (⟨.above 0, front.concat entry⟩ : Place) =
              here.below (front.concat entry) := rfl
            rw [start, above] at inside
            rw [List.filter_cons_of_pos (by simp), List.foldl_cons, above]
            exact ih relative.2 inside

/-- A path that stays inside of the directory that it starts from leads to the same names from
everywhere. -/
theorem resolve_of_ofPath {directory : Place} (absolute : directory.Absolute) {path : Path}
    {names : List Name} (inside : ofPath path = ⟨.above 0, names⟩) :
    directory.resolve path = directory.below names := by
  have relative : path.isAbsolute = false := by
    rw [← Bool.not_eq_true]
    intro rooted
    have anchor := absolute_ofPath rooted
    rw [inside] at anchor
    cases anchor
  have onward := foldl_follow_below (Path.root_not_mem_components relative) directory inside
  rw [resolve, absolute.toPath, ofPath, Path.components_fromRoot_join relative, List.foldl_cons,
    List.foldl_append, foldl_follow_names, ← onward]
  congr 1
  rw [below, List.append_nil]
  exact Place.ext absolute.symm rfl

end Stencil.Place
