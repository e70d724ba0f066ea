import Stencil.Disk.Fault
import Stencil.Path.Place

/-!
# Libraries of templates

A library tells which template a path stands for and what it holds.  Different paths may lead to
the same place, which identifies the template there.
-/

namespace Stencil.Template

/-- Where templates come from. -/
structure Library where
  /-- The place that identifies the template at a path. -/
  identify : Path → Place
  /-- The text of the template at a path, or nothing when there is none. -/
  fetch : Path → Except Disk.Fault (Option String)

namespace Library

/-- A library of given texts.  A later text for a place replaces an earlier one. -/
def ofList (templates : List (Path × String)) : Library :=
  let shelf := templates.foldl (fun shelf (path, content) => shelf.insert (Place.ofPath path) content)
    (∅ : Std.ExtTreeMap Place String)
  { identify := Place.ofPath
    fetch := fun path => .ok shelf[Place.ofPath path]? }

end Library

end Stencil.Template
