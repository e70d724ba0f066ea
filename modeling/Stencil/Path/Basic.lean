import Stencil.Path.Component
import Stencil.Text.Search

/-!
# Paths

A path is a text.  It is read as a sequence of components, in which repeated slashes and single
dots leave no trace, except for a dot at the very beginning.

Paths here are Unicode texts.  A system may have others, made of any bytes, and these are left out.
-/

namespace Stencil

/-- A path as it was written. -/
@[ext]
structure Path where
  text : String
deriving DecidableEq, Repr, Inhabited

namespace Path

/-- The pieces of a text between slashes. -/
def pieces : List Char → List (List Char)
  | [] => [[]]
  | c :: rest =>
      if c = '/' then [] :: pieces rest
      else
        match pieces rest with
        | [] => [[c]]
        | piece :: others => (c :: piece) :: others

/-- Pieces written with a slash between each two of them. -/
def joined : List (List Char) → List Char
  | [] => []
  | [piece] => piece
  | piece :: others => piece ++ '/' :: joined others

/-- A component that only the beginning of a path can be, and the pieces after it. -/
def opening (path : Path) : Option Component × List (List Char) :=
  match path.text.toList with
  | '/' :: rest => (some .root, pieces rest)
  | chars =>
      match pieces chars with
      | ['.'] :: others => (some .current, others)
      | all => (none, all)

/-- The components of a path. -/
def components (path : Path) : List Component :=
  path.opening.1.toList ++ path.opening.2.filterMap Component.ofPiece?

/-- The path with given components. -/
def ofComponents : List Component → Path
  | .root :: rest => ⟨String.ofList ('/' :: joined (rest.map (·.text.toList)))⟩
  | all => ⟨String.ofList (joined (all.map (·.text.toList)))⟩

/-- Whether the path begins at the root. -/
def isAbsolute (path : Path) : Bool :=
  path.text.toList.head? == some '/'

/-- The path that leads along `path` and then along `next`.  An absolute `next` stands alone. -/
def join (path next : Path) : Path :=
  if next.isAbsolute then next
  else if path.text = "" ∨ path.text.toList.getLast? = some '/' then ⟨path.text ++ next.text⟩
  else ⟨path.text ++ "/" ++ next.text⟩

/-- The name at the end of a path. -/
def fileName? (path : Path) : Option Name :=
  match path.components.getLast? with
  | some (.name name) => some name
  | _ => none

/-- The path without its last component, unless it is empty or the root. -/
def parent? (path : Path) : Option Path :=
  match path.components.getLast? with
  | none | some .root => none
  | some _ => some (ofComponents path.components.dropLast)

/-- Replace the extension of the name at the end of a path, or add one.  A path that ends in no
name stays as it is.  An extension goes before its dot does, so that a name with nothing but a dot
before its extension turns into the directory above, which has no extension to replace. -/
def withExtension (path : Path) (extension : String) : Path :=
  match path.fileName? with
  | none => path
  | some name =>
      let directory := ofComponents path.components.dropLast
      if name.stem = "." then directory.join ⟨Component.parent.text⟩
      else directory.join ⟨name.stem ++ "." ++ extension⟩

/-- Whether a piece of a path stands for no component. -/
def isBlankPiece (piece : List Char) : Bool :=
  piece.isEmpty || piece == ['.']

/-- The pieces after the first `count` that stand for components. -/
def dropComponents : (count : Nat) → List (List Char) → List (List Char)
  | 0, pieces => pieces
  | _ + 1, [] => []
  | count + 1, piece :: others =>
      if isBlankPiece piece then dropComponents (count + 1) others
      else dropComponents count others

/-- The part of a path after the components of `base`, when the path begins with them.  The part
is kept as it was written, without slashes and dots at its ends. -/
def relativeTo? (path base : Path) : Option Path :=
  if base.components.isPrefixOf path.components then
    let (first, rest) := path.opening
    match base.components.length with
    | 0 =>
        let kept := (rest.reverse.dropWhile isBlankPiece).reverse
        let start := first.toList.map (·.text.toList)
        some ⟨String.ofList (joined (start ++ if first = some .root ∧ kept.isEmpty then [[]] else kept))⟩
    | count + 1 =>
        let rest := dropComponents (if first.isSome then count else count + 1) rest
        some ⟨String.ofList (joined (Text.trimList isBlankPiece rest))⟩
  else none

/-- Component by component, with the root before names and a path before its continuations. -/
def precedes (first second : Path) : Bool :=
  (compare first.components second.components).isLE

instance : ToString Path := ⟨Path.text⟩

end Path

end Stencil
