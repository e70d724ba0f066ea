import Std.Data.ExtTreeMap
import Stencil.Path.Basic

/-!
# Disks

A disk is a tree of directories, files and symbolic links, together with the directory that
relative paths start from.  It is kept as a map from locations to entries in which the directory
of every entry is an entry itself.
-/

namespace Stencil

/-- What a location on a disk holds. -/
inductive Disk.Entry where
  | file (content : ByteArray)
  | directory
  | link (target : Path)

namespace Disk.Entry

instance : DecidableEq Disk.Entry
  | file first, file second =>
      match ByteArray.instDecidableEq first second with
      | isTrue same => isTrue (congrArg file same)
      | isFalse differ => isFalse fun same => differ (file.inj same)
  | link first, link second =>
      match decEq first second with
      | isTrue same => isTrue (congrArg link same)
      | isFalse differ => isFalse fun same => differ (link.inj same)
  | directory, directory => isTrue rfl
  | file _, directory | file _, link _ | directory, file _ | directory, link _
  | link _, file _ | link _, directory => isFalse nofun

end Disk.Entry

/-- The names that lead from the root of a disk to an entry. -/
abbrev Disk.Location :=
  List Name

/-- A tree of directories, files and links. -/
structure Disk where
  entries : Std.ExtTreeMap Disk.Location Disk.Entry
  /-- The directory that relative paths start from. -/
  here : Disk.Location
  rooted : entries[([] : Disk.Location)]? = some .directory
  closed : ∀ location, location ∈ entries → location ≠ [] →
    entries[location.dropLast]? = some .directory

namespace Disk

/-- A disk that holds nothing but its root. -/
def empty : Disk where
  entries := (∅ : Std.ExtTreeMap Location Entry).insert [] .directory
  here := []
  rooted := by simp
  closed location found below := by
    simp only [Std.ExtTreeMap.mem_insert, Std.ExtTreeMap.not_mem_empty, or_false,
      Std.compare_eq_iff_eq] at found
    exact absurd found.symm below

instance : Inhabited Disk := ⟨empty⟩

/-- What a disk holds at a location. -/
def get? (disk : Disk) (location : Location) : Option Entry :=
  disk.entries[location]?

@[simp]
theorem get?_root (disk : Disk) : disk.get? [] = some .directory :=
  disk.rooted

/-- Disks are equal when they hold the same at every location. -/
@[ext]
theorem ext {first second : Disk}
    (held : ∀ location, first.get? location = second.get? location)
    (here : first.here = second.here) : first = second := by
  cases first
  cases second
  obtain rfl := Std.ExtTreeMap.ext_getElem? held
  obtain rfl := here
  rfl

theorem get?_dropLast (disk : Disk) {location : Location} {entry : Entry}
    (found : disk.get? location = some entry) :
    disk.get? location.dropLast = some .directory := by
  by_cases below : location = []
  · simp [below]
  · refine disk.closed location ?_ below
    unfold get? at found
    exact Std.ExtTreeMap.mem_iff_isSome_getElem?.mpr (by simp [found])

/-- Whether an entry may be put at a location: in a directory, over nothing or over an entry other
than a directory. -/
def Admits (disk : Disk) (location : Location) : Prop :=
  location ≠ [] ∧ disk.get? location.dropLast = some .directory ∧
    disk.get? location ≠ some .directory

instance (disk : Disk) (location : Location) : Decidable (disk.Admits location) :=
  inferInstanceAs (Decidable (_ ∧ _))

/-- Put an entry at a location that admits it.  Elsewhere nothing is put. -/
def put (disk : Disk) (location : Location) (entry : Entry) : Disk :=
  if h : disk.Admits location then
    { disk with
      entries := disk.entries.insert location entry
      rooted := by
        simp only [Std.ExtTreeMap.getElem?_insert, Std.compare_eq_iff_eq, if_neg h.1]
        exact disk.rooted
      closed := by
        intro other found below
        have shorter : other.dropLast ≠ other := fun same => below (by
          have := congrArg List.length same
          simp only [List.length_dropLast] at this
          exact List.eq_nil_of_length_eq_zero (by omega))
        simp only [Std.ExtTreeMap.mem_insert, Std.compare_eq_iff_eq] at found
        simp only [Std.ExtTreeMap.getElem?_insert, Std.compare_eq_iff_eq]
        rcases found with rfl | found
        · rw [if_neg (Ne.symm shorter)]
          exact h.2.1
        · have kept := disk.closed other found below
          rw [if_neg]
          · exact kept
          · rintro rfl
            exact h.2.2 kept }
  else disk

theorem get?_put (disk : Disk) (location other : Location) (entry : Entry) :
    (disk.put location entry).get? other =
      if disk.Admits location ∧ location = other then some entry else disk.get? other := by
  unfold put
  split
  · simp only [get?, Std.ExtTreeMap.getElem?_insert, Std.compare_eq_iff_eq, true_and, *]
  · simp only [false_and, if_false, *]

/-- Take an entry away, with all that lies below it. -/
def remove (disk : Disk) (location : Location) : Disk :=
  if h : location ≠ [] then
    { disk with
      entries := disk.entries.filter fun other _ => !location.isPrefixOf other
      rooted := by
        have stays : location.isPrefixOf [] = false := by
          cases location with
          | nil => exact absurd rfl h
          | cons => rfl
        simp [Std.ExtTreeMap.getElem?_filter, stays, disk.rooted]
      closed := by
        intro other found below
        rw [Std.ExtTreeMap.mem_filter] at found
        obtain ⟨found, stays⟩ := found
        have kept := disk.closed other found below
        rw [Std.ExtTreeMap.getElem?_filter]
        simp only [Std.ExtTreeMap.getKey_eq, Bool.not_eq_eq_eq_not, Bool.not_true] at stays ⊢
        have : location.isPrefixOf other.dropLast = false := by
          rw [← Bool.not_eq_true] at stays ⊢
          intro before
          apply stays
          rw [List.isPrefixOf_iff_prefix] at before ⊢
          exact before.trans (List.dropLast_prefix other)
        simp [kept, this] }
  else disk

theorem get?_remove (disk : Disk) (location other : Location) :
    (disk.remove location).get? other =
      if location ≠ [] ∧ location <+: other then none else disk.get? other := by
  unfold remove
  split
  · by_cases before : location <+: other
    · simp [get?, Std.ExtTreeMap.getElem?_filter, List.isPrefixOf_iff_prefix.mpr before, *]
    · have apart : location.isPrefixOf other = false := by
        rw [← Bool.not_eq_true, List.isPrefixOf_iff_prefix]
        exact before
      cases found : disk.entries[other]? <;>
        simp [get?, Std.ExtTreeMap.getElem?_filter, apart, before, found]
  · simp_all

/-- The names in the directory at a location, in order. -/
def names (disk : Disk) (location : Location) : List Name :=
  disk.entries.keys.filterMap fun other =>
    if other.dropLast = location then other.getLast? else none

end Disk

end Stencil
