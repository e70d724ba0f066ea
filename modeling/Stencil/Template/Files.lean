import Stencil.Disk.Walk
import Stencil.Template.Library

/-!
# Templates on a disk

The files below a directory are a library of templates.  The place of a file identifies the
template that it holds.
-/

namespace Stencil.Template.Library

/-- The files on a disk as templates, with paths that start from `root`. -/
def below (disk : Disk) (root : Place) : Library where
  identify := root.resolve
  fetch path :=
    let file := (root.resolve path).toPath
    if disk.isFile file then (disk.readText file).map some else .ok none

end Stencil.Template.Library
