import Stencil.Path.Name

/-!
# Components of paths

A path is read as a sequence of components.  Paths are ordered component by component: the root
comes first, then the current directory, then the parent directory, then names.
-/

namespace Stencil

/-- A step of a path. -/
inductive Component where
  | root
  | current
  | parent
  | name (entry : Name)
deriving DecidableEq

namespace Component

/-- How a component is written, apart from the slashes around it. -/
def text : Component → String
  | root => ""
  | current => "."
  | parent => ".."
  | name entry => entry.text

/-- The name that a component stands for. -/
def name? : Component → Option Name
  | name entry => some entry
  | _ => none

/-- The place of a kind of component in the order of components. -/
def rank : Component → Nat
  | root => 0
  | current => 1
  | parent => 2
  | name _ => 3

instance : Ord Component := ⟨compareLex (compareOn rank) (compareOn text)⟩

instance : Std.TransOrd Component :=
  inferInstanceAs (Std.TransCmp (compareLex (compareOn rank) (compareOn text)))

instance : Std.LawfulEqOrd Component where
  eq_of_compare {first second} h := by
    have both : compareLex (compareOn rank) (compareOn text) first second = .eq := h
    rw [compareLex_eq_eq] at both
    have ranks : first.rank = second.rank :=
      Std.LawfulEqOrd.eq_of_compare (α := Nat) both.1
    have texts : first.text = second.text :=
      Std.LawfulEqOrd.eq_of_compare (α := String) both.2
    cases first <;> cases second <;> simp_all [rank, text, Name.ext_iff]

/-- The component that a piece of a path between slashes stands for.  An empty piece and a single
dot stand for none. -/
def ofPiece? (piece : List Char) : Option Component :=
  if piece = ['.', '.'] then some parent
  else (Name.ofText? (String.ofList piece)).map name

end Component

end Stencil
