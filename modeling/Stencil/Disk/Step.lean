import Stencil.Disk.Fault
import Stencil.Path.Basic

/-!
# Steps of a walk

A walk along a path takes a step to each of its components.  A path that ends in a dot takes one
more step on the spot, and a path that ends in a slash takes one over the slash, so that both lead
to directories only.  Some texts are refused as paths before any step is taken.
-/

namespace Stencil

/-- A step of a walk. -/
inductive Disk.Step where
  /-- To a component of a path. -/
  | along (component : Component)
  /-- Over the slash that ends a path. -/
  | slash
deriving DecidableEq

namespace Path

/-- The step that a path takes after its components.  Slashes at its end are one step. -/
def lastStep? (path : Path) : Option Disk.Step :=
  let pieces := path.opening.2.reverse
  match pieces.dropWhile List.isEmpty with
  | ['.'] :: _ => some (.along .current)
  | _ => if pieces.head?.any List.isEmpty then some .slash else none

/-- The steps of a walk along a path. -/
def steps (path : Path) : List Disk.Step :=
  path.components.map .along ++ path.lastStep?.toList

/-- The number of bytes that a path stays below. -/
def sizeLimit : Nat := 4096

/-- Why no walk along a path is begun. -/
def fault? (path : Path) : Option Disk.Fault :=
  if path.text.toList.contains '\x00' then some .nulCharacter
  else if path.text = "" then some .notFound
  else if sizeLimit ≤ path.text.utf8ByteSize then some .nameTooLong
  else none

end Path

end Stencil
