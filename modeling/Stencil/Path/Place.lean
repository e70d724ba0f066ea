import Stencil.Path.Basic

/-!
# Places

A place is a path in lexical normal form: an anchor, followed by names.  The anchor is the root,
or lies some levels above the directory that relative paths start from.  Every path leads to one
place when `..` is taken to undo the name before it, and the root is taken to be above itself.
-/

namespace Stencil

/-- Where a place starts. -/
inductive Anchor where
  | root
  | above (levels : Nat)
deriving DecidableEq, Repr

/-- A path in lexical normal form. -/
@[ext]
structure Place where
  anchor : Anchor
  names : List Name
deriving DecidableEq

namespace Place

/-- The directory that relative paths start from. -/
def here : Place := ⟨.above 0, []⟩

instance : Inhabited Place := ⟨here⟩

/-- The components of an anchor. -/
def anchorComponents : Anchor → List Component
  | .root => [.root]
  | .above levels => List.replicate levels .parent

/-- The components of a place: first the anchor, then the names. -/
def components (place : Place) : List Component :=
  anchorComponents place.anchor ++ place.names.map .name

/-- The place one level up. -/
def up (place : Place) : Place :=
  match place.names, place.anchor with
  | [], .root => place
  | [], .above levels => ⟨.above (levels + 1), []⟩
  | names, anchor => ⟨anchor, names.dropLast⟩

/-- The place of an entry of a directory. -/
def child (place : Place) (name : Name) : Place :=
  ⟨place.anchor, place.names ++ [name]⟩

/-- Follow one component. -/
def follow (place : Place) : Component → Place
  | .root => ⟨.root, []⟩
  | .current => place
  | .parent => place.up
  | .name name => place.child name

/-- The place that a path leads to. -/
def ofPath (path : Path) : Place :=
  path.components.foldl follow here

/-- The normal form of a path, as a path. -/
def toPath (place : Place) : Path :=
  Path.ofComponents place.components

def text (place : Place) : String :=
  place.toPath.text

/-- The place that a path leads to from another place. -/
def resolve (place : Place) (path : Path) : Place :=
  ofPath (place.toPath.join path)

/-- The name at the end of a place. -/
def fileName? (place : Place) : Option Name :=
  place.names.getLast?

/-- The components of a place after those of `base`, when it begins with them. -/
def after? (place base : Place) : Option (List Component) :=
  base.components.isPrefixOf? place.components

theorem anchorComponents_injective {first second : Anchor}
    (h : anchorComponents first = anchorComponents second) : first = second := by
  cases first with
  | root =>
      cases second with
      | root => rfl
      | above levels => cases levels <;> simp [anchorComponents, List.replicate_succ] at h
  | above levels =>
      cases second with
      | root => cases levels <;> simp [anchorComponents, List.replicate_succ] at h
      | above others =>
          have := congrArg List.length h
          simp only [anchorComponents, List.length_replicate] at this
          rw [this]

theorem filterMap_name?_components (place : Place) :
    place.components.filterMap Component.name? = place.names := by
  obtain ⟨anchor, names⟩ := place
  cases anchor <;> simp [components, anchorComponents, List.filterMap_cons, Component.name?,
    List.filterMap_map, Function.comp_def]

theorem filter_components (place : Place) :
    place.components.filter (·.name?.isNone) = anchorComponents place.anchor := by
  obtain ⟨anchor, names⟩ := place
  cases anchor <;> simp [components, anchorComponents, Component.name?, List.filter_map,
    Function.comp_def]

theorem components_injective {first second : Place}
    (h : first.components = second.components) : first = second := by
  ext1
  · apply anchorComponents_injective
    rw [← filter_components, ← filter_components, h]
  · rw [← filterMap_name?_components, ← filterMap_name?_components, h]

instance : Ord Place := ⟨compareOn components⟩

instance : Std.TransOrd Place :=
  inferInstanceAs (Std.TransCmp (compareOn components))

instance : Std.LawfulEqOrd Place where
  eq_of_compare h := components_injective
    (Std.LawfulEqOrd.eq_of_compare (α := List Component) h)

end Place

end Stencil
