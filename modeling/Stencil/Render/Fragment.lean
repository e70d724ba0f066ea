import Stencil.Placeholder
import Stencil.Preamble
import Stencil.Render.Draft

/-!
# Fragments

A fragment is the output of one inclusion.  It depends on the page that the inclusion stands in,
on the inclusion, and on the scope of the page, and the three are written into one text that
serves as the key of the fragment.
-/

namespace Stencil.Render

namespace Inclusion

/-- The key of the fragment for an inclusion in the page at `origin`. -/
def fragmentKey (inclusion : Inclusion) (origin : Path) (scope : Bindings) : String :=
  origin.text ++ "\x1d" ++ inclusion.name ++ "\x1d" ++ inclusion.content ++ "\x1d" ++
    inclusion.attributes.flatten ++ "\x1d" ++ inclusion.assignments.flatten ++ "\x1d" ++
    scope.flatten

/-- The variable that holds the inner text of an inclusion. -/
def contentVariable : String := "content"

/-- The scope and the body of a template with the text `template` that is included from `scope`.
The template's preamble adds to the scope of the page, and the attributes override both.  The
values of the variable tags are filled in from that scope, and override it together.  Last comes
the inner text. -/
def enter (inclusion : Inclusion) (dialect : Dialect) (scope : Bindings) (template : String) :
    Bindings × String :=
  let (declared, body) := Preamble.read template scope
  let given := declared.merge inclusion.attributes.toList
  let assigned := given.merge
    (inclusion.assignments.mapValues (Placeholder.substitute dialect given)).toList
  let inner := Placeholder.substitute dialect assigned (Text.trim Text.isMargin inclusion.content)
  (assigned.set contentVariable inner, body)

end Inclusion

end Stencil.Render
