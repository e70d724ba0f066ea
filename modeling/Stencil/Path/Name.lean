import Std.Data.ExtTreeMap

/-!
# Names of directory entries

A name is what a directory lists: a text that is not empty, holds no slash and is not one of the
two names with a meaning of their own.  Names are ordered by their characters.

Names here are Unicode texts.  Of the names that a system may give to files, those that are no such
text are left out.
-/

namespace Stencil

/-- The name of a directory entry. -/
@[ext]
structure Name where
  text : String
  ne_empty : text ≠ ""
  ne_current : text ≠ "."
  ne_parent : text ≠ ".."
  no_slash : '/' ∉ text.toList
deriving DecidableEq

namespace Name

/-- The name with a given text, when it is one. -/
def ofText? (text : String) : Option Name :=
  if h : text ≠ "" ∧ text ≠ "." ∧ text ≠ ".." ∧ '/' ∉ text.toList then
    some ⟨text, h.1, h.2.1, h.2.2.1, h.2.2.2⟩
  else none

theorem ofText?_eq_some {text : String} {name : Name} :
    ofText? text = some name ↔ name.text = text := by
  constructor
  · intro h
    unfold ofText? at h
    split at h
    · exact (Option.some.inj h) ▸ rfl
    · simp at h
  · rintro rfl
    simp [ofText?, name.ne_empty, name.ne_current, name.ne_parent, name.no_slash]

@[simp]
theorem ofText?_text (name : Name) : ofText? name.text = some name :=
  ofText?_eq_some.mpr rfl

theorem ofText?_eq_none {text : String} :
    ofText? text = none ↔ text = "" ∨ text = "." ∨ text = ".." ∨ '/' ∈ text.toList := by
  unfold ofText?
  split <;> grind

instance : Ord Name := ⟨compareOn Name.text⟩

instance : Std.TransOrd Name :=
  inferInstanceAs (Std.TransCmp (compareOn Name.text))

instance : Std.LawfulEqOrd Name where
  eq_of_compare h := Name.ext (Std.LawfulEqOrd.eq_of_compare (α := String) h)

/-- The name without its last extension.  A dot at the beginning starts no extension. -/
def stem (name : Name) : String :=
  let behind := name.text.toList.reverse.takeWhile (· != '.')
  let before := (name.text.toList.reverse.dropWhile (· != '.')).drop 1
  if before.isEmpty then name.text
  else if behind.length = name.text.length then name.text
  else String.ofList before.reverse

end Name

end Stencil
