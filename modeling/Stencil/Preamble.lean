import Stencil.Bindings
import Stencil.Text.Lines

/-!
# Preambles

A page or template may begin with lines `@key=value`.  Such a line gives the key a value unless it
already has one, so values from an including page win over those of the template, and the first of
two declarations wins over the second.  A line that begins with `@` but declares nothing is
skipped, and the first line that does not begin with `@` ends the preamble.
-/

namespace Stencil.Preamble

/-- The key and value that a line declares, given without the `@` at its beginning. -/
def declaration? (line : List Char) : Option (String × String) :=
  match line.dropWhile (· != '=') with
  | [] => none
  | _ :: value => some (String.ofList (line.takeWhile (· != '=')), String.ofList value)

/-- Take a declaration into the scope. -/
def declare (scope : Bindings) (line : List Char) : Bindings :=
  match declaration? (Text.dropCarriage line) with
  | none => scope
  | some (key, value) => scope.setIfAbsent key value

/-- Read the preamble of `source` into the scope, and return the text after it. -/
def readFrom (scope : Bindings) (source : List Char) : Bindings × List Char :=
  match source with
  | '@' :: rest => readFrom (declare scope (Text.cutLine rest).1) (Text.cutLine rest).2
  | _ => (scope, source)
termination_by source.length
decreasing_by
  have := Text.length_cutLine_le rest
  simp only [List.length_cons]
  omega

/-- The scope after the preamble of a text, and the text's body. -/
def read (content : String) (scope : Bindings) : Bindings × String :=
  let (scope, body) := readFrom scope content.toList
  (scope, String.ofList body)

end Stencil.Preamble
