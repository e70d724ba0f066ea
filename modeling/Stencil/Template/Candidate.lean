import Stencil.Path.Basic
import Stencil.Text.Search

/-!
# Candidates for a template

The name in an inclusion tag stands for a list of files that are tried in order.  In a name a dot
enters a directory and a colon leaves one.  The page with that name is tried first; names that end
in the extension of a style sheet or a script also stand for such a file.
-/

namespace Stencil.Template

/-- What a template holds. -/
inductive Kind where
  | html
  | css
  | js
deriving DecidableEq, Repr

namespace Kind

/-- The extension of the files of a kind. -/
def extension : Kind → String
  | html => ".html"
  | css => ".css"
  | js => ".js"

/-- The element around the output of a template.  Pages have none. -/
def wrap (kind : Kind) (content : String) : String :=
  match kind with
  | html => content
  | css => "<style>\n" ++ content ++ "\n</style>"
  | js => "<script>\n" ++ content ++ "\n</script>"

end Kind

/-- A file that may hold a template. -/
structure Candidate where
  path : Path
  kind : Kind
deriving DecidableEq, Repr

/-- The text of a name with its dots and colons turned into steps between directories. -/
def pathText (name : String) : String :=
  String.ofList (name.toList.flatMap fun
    | '.' => ['/']
    | ':' => ['.', '.', '/']
    | c => [c])

/-- The file of a kind that a name without extension stands for. -/
def candidate (kind : Kind) (stem : String) : Candidate :=
  ⟨⟨pathText stem ++ kind.extension⟩, kind⟩

/-- The files that a name stands for, in the order in which they are tried. -/
def candidates (name : String) : List Candidate :=
  let page := candidate .html ((Text.dropSuffix? name Kind.html.extension).getD name)
  let assets := [Kind.css, .js].filterMap fun kind =>
    (Text.dropSuffix? name kind.extension).map (candidate kind)
  page :: assets

end Stencil.Template
